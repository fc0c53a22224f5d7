import Mathlib.Algebra.Order.BigOperators.Group.Finset
import Mathlib.Data.List.Range
import MsmKernel.Walt.State

/-! The top-task tables of a CPU: for each of two tracked windows a table that counts tasks by
load index, a bitmap of the occupied indices in reversed order, and the top index. -/
namespace MsmKernel.Walt
open Function

def loadToIndex (load : Nat) : Nat := min (load / schedLoadGranule) (NUM_LOAD_INDICES - 1)

def findNextBit (bitmap : Nat → Bool) (size offset : Nat) : Nat :=
  ((List.range' offset (size - offset)).find? bitmap).getD size

def getTopIndex (bitmap : Nat → Bool) (oldTop : Nat) : Nat :=
  let index := findNextBit bitmap NUM_LOAD_INDICES oldTop
  if index = NUM_LOAD_INDICES then 0 else NUM_LOAD_INDICES - 1 - index

namespace Slot

section
variable (slot : Slot)

/- The counts are u8: `-= 1` adds 255. -/
def incr (index : Nat) : Slot :=
  { slot with table := update slot.table index ((slot.table index + 1) % 256) }

def decr (index : Nat) : Slot :=
  { slot with table := update slot.table index ((slot.table index + 255) % 256) }

def clearBitIfZero (index : Nat) : Slot :=
  if slot.table index = 0 then
    { slot with bitmap := update slot.bitmap (NUM_LOAD_INDICES - index - 1) false }
  else slot

def setBitIfOne (index : Nat) : Slot :=
  if slot.table index = 1 then
    { slot with bitmap := update slot.bitmap (NUM_LOAD_INDICES - index - 1) true }
  else slot

def raiseTop (index : Nat) : Slot :=
  if index > slot.top then { slot with top := index } else slot

/- One window's leg of migrate_top_tasks_addition, and the last part of update_top_tasks. -/
def addTask (load : Nat) : Slot :=
  if load ≠ 0 then
    ((slot.incr (loadToIndex load)).setBitIfOne (loadToIndex load)).raiseTop (loadToIndex load)
  else slot

/- One window's leg of migrate_top_tasks_subtraction. -/
def removeTask (load : Nat) : Slot :=
  if load ≠ 0 then
    let index := loadToIndex load
    let slot := (slot.decr index).clearBitIfZero index
    if index = slot.top ∧ slot.table index = 0 then
      { slot with top := getTopIndex slot.bitmap slot.top }
    else slot
  else slot

/- update_top_tasks inside one window. -/
def moveTask (oldWindow currWindow : Nat) : Slot :=
  let oldIndex := loadToIndex oldWindow
  let newIndex := loadToIndex currWindow
  let slot :=
    if oldIndex ≠ newIndex ∨ (oldWindow = 0 ∧ currWindow ≠ 0) then
      let slot := if oldWindow ≠ 0 then slot.decr oldIndex else slot
      let slot := if currWindow ≠ 0 then slot.incr newIndex else slot
      slot.raiseTop newIndex
    else slot
  (slot.clearBitIfZero oldIndex).setBitIfOne newIndex

/- update_top_tasks after at least one whole window: the top index is stored unconditionally. -/
def addFullWindow (prevWindow : Nat) : Slot :=
  let updateIndex := loadToIndex prevWindow
  let slot :=
    if prevWindow ≠ 0 then { slot.incr updateIndex with top := updateIndex } else slot
  slot.setBitIfOne updateIndex

/- update_top_tasks after a window has ended less than a window ago. -/
def closeWindow (oldWindow prevWindow : Nat) : Slot :=
  let oldIndex := loadToIndex oldWindow
  let updateIndex := loadToIndex prevWindow
  if oldIndex ≠ updateIndex ∨ (oldWindow = 0 ∧ prevWindow ≠ 0) then
    let slot := if oldWindow ≠ 0 then slot.decr oldIndex else slot
    (((slot.incr updateIndex).raiseTop updateIndex).clearBitIfZero oldIndex).setBitIfOne updateIndex
  else slot

end

end Slot

namespace TopTasks

def curr (t : TopTasks) : Slot := ⟨t.table t.currTable, t.bitmap t.currTable, t.currTop⟩

def prev (t : TopTasks) : Slot := ⟨t.table (1 - t.currTable), t.bitmap (1 - t.currTable), t.prevTop⟩

def setCurr (t : TopTasks) (slot : Slot) : TopTasks :=
  { t with
    table := update t.table t.currTable slot.table
    bitmap := update t.bitmap t.currTable slot.bitmap
    currTop := slot.top }

def setPrev (t : TopTasks) (slot : Slot) : TopTasks :=
  { t with
    table := update t.table (1 - t.currTable) slot.table
    bitmap := update t.bitmap (1 - t.currTable) slot.bitmap
    prevTop := slot.top }

@[simp] theorem curr_setCurr (t : TopTasks) (slot : Slot) : (t.setCurr slot).curr = slot := by
  simp [curr, setCurr]

@[simp] theorem prev_setPrev (t : TopTasks) (slot : Slot) : (t.setPrev slot).prev = slot := by
  simp [prev, setPrev]

theorem other_table_ne (table : Fin 2) : 1 - table ≠ table := by
  revert table
  decide

@[simp] theorem prev_setCurr (t : TopTasks) (slot : Slot) : (t.setCurr slot).prev = t.prev := by
  simp [prev, setCurr, other_table_ne]

@[simp] theorem curr_setPrev (t : TopTasks) (slot : Slot) : (t.setPrev slot).curr = t.curr := by
  simp [curr, setPrev, (other_table_ne t.currTable).symm]

end TopTasks

def migrateTopTasksAddition (currWindow prevWindow : Nat) (t : TopTasks) : TopTasks :=
  let t := t.setCurr (t.curr.addTask currWindow)
  t.setPrev (t.prev.addTask prevWindow)

def migrateTopTasksSubtraction (currWindow prevWindow : Nat) (t : TopTasks) : TopTasks :=
  let t := t.setCurr (t.curr.removeTask currWindow)
  t.setPrev (t.prev.removeTask prevWindow)

def updateTopTasks (oldCurrWindow currWindow prevWindow : Nat) (newWindow fullWindow : Bool)
    (t : TopTasks) : TopTasks :=
  if newWindow then
    let t :=
      if fullWindow then t.setPrev (t.prev.addFullWindow prevWindow)
      else t.setPrev (t.prev.closeWindow oldCurrWindow prevWindow)
    t.setCurr (t.curr.addTask currWindow)
  else if oldCurrWindow = currWindow then t
  else t.setCurr (t.curr.moveTask oldCurrWindow currWindow)

def rolloverTopTasks (fullWindow : Bool) (t : TopTasks) : TopTasks :=
  let prevTable := 1 - t.currTable
  let table := update t.table prevTable clearTopTasksTable
  let bitmap := update t.bitmap prevTable clearTopTasksBitmap
  if fullWindow then
    ⟨update table t.currTable clearTopTasksTable,
      update bitmap t.currTable clearTopTasksBitmap, prevTable, 0, 0⟩
  else ⟨table, bitmap, prevTable, 0, t.currTop⟩

def topTaskLoad (schedRavgWindow : Nat) (t : TopTasks) : Nat :=
  if t.prevTop = 0 then
    if t.bitmap (1 - t.currTable) (NUM_LOAD_INDICES - 1) then schedLoadGranule else 0
  else if t.prevTop = NUM_LOAD_INDICES - 1 then schedRavgWindow
  else (t.prevTop + 1) * schedLoadGranule

end MsmKernel.Walt
