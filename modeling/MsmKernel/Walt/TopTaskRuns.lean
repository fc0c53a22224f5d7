import MsmKernel.Walt.TopTaskCounts

/-! The tables over whole runs: what the legs of a migration do to them, the conditions under which
the u8 counts and the two top indices hold, and what top_task_load then reports. -/
set_option linter.unusedSectionVars false

namespace MsmKernel.Walt
open Run Tally Finset
variable {Task Cpu : Type} [DecidableEq Task] [DecidableEq Cpu]

section Legs
variable (topo : Topology Cpu) (p : Task) (newTask : Bool) (s : State Task Cpu) (cpu : Cpu)

theorem updateClusterLoadSubtractions_topTasks (c : Cpu) (ws : Nat) :
    ((updateClusterLoadSubtractions topo p c ws newTask s).rq cpu).topTasks =
      (s.rq cpu).topTasks := by
  simp only [updateClusterLoadSubtractions]
  split_ifs <;> rfl

theorem mapTopTasks_topTasks (c : Cpu) (f : TopTasks → TopTasks) :
    ((mapTopTasks c f s).rq cpu).topTasks =
      if cpu = c then f (s.rq cpu).topTasks else (s.rq cpu).topTasks := by
  by_cases hc : cpu = c
  · subst hc
    simp [mapTopTasks, State.setRq]
  · simp [mapTopTasks, State.setRq, hc]

theorem subtractFromSource_topTasks : ((subtractFromSource topo p s).rq cpu).topTasks =
    if cpu = s.taskCpu p then
      migrateTopTasksSubtraction (s.wts p).currWindow (s.wts p).prevWindow (s.rq cpu).topTasks
    else (s.rq cpu).topTasks := by
  simp only [subtractFromSource, mapTopTasks_topTasks]
  generalize hu : (ite ((s.wts p).grp = true) _ _ : State Task Cpu) = u
  have hinner : (u.rq cpu).topTasks = (s.rq cpu).topTasks := by
    subst hu
    split_ifs
    · exact apply_update Wrq.topTasks (by rfl) cpu
    · exact (updateClusterLoadSubtractions_topTasks ..).trans
        (apply_update Wrq.topTasks (by rfl) cpu)
    · rfl
  rw [hinner]

theorem addToDestination_topTasks : ((addToDestination p s).rq cpu).topTasks =
    if cpu = s.taskCpu p then
      migrateTopTasksAddition (s.wts p).currWindow (s.wts p).prevWindow (s.rq cpu).topTasks
    else (s.rq cpu).topTasks := by
  simp only [addToDestination, mapTopTasks_topTasks]
  generalize hu : (ite ((s.wts p).grp = true) _ _ : State Task Cpu) = u
  have hinner : (u.rq cpu).topTasks = (s.rq cpu).topTasks := by
    subst hu
    split_ifs
    · exact apply_update Wrq.topTasks (by rfl) cpu
    · exact apply_update Wrq.topTasks (by rfl) cpu
    · rfl
  rw [hinner]

theorem depart_topTasks (newCpu : Cpu) : ((depart topo p newCpu s).rq cpu).topTasks =
    if (s.wts p).enqueueAfterMigration = .none ∧ cpu = s.taskCpu p then
      migrateTopTasksSubtraction (s.wts p).currWindow (s.wts p).prevWindow (s.rq cpu).topTasks
    else (s.rq cpu).topTasks := by
  obtain ⟨u, hu⟩ : ∃ u, u = setEnqueueAfterMigration p
    (pendingMigration topo (s.taskCpu p) newCpu) s := ⟨_, rfl⟩
  have hwts : (u.wts p).currWindow = (s.wts p).currWindow ∧
      (u.wts p).prevWindow = (s.wts p).prevWindow := by
    rw [hu]
    simp [setEnqueueAfterMigration, State.setWts]
  have hrq : u.rq = s.rq := by rw [hu]; rfl
  have hcpu : u.taskCpu = s.taskCpu := by rw [hu]; rfl
  simp only [depart, ← hu]
  by_cases hflag : (s.wts p).enqueueAfterMigration = .none
  · simp only [hflag, ne_eq, not_true, if_false, subtractFromSource_topTasks, hwts, hrq, hcpu,
      true_and]
  · simp only [ne_eq, hflag, not_false_eq_true, if_true, hrq, false_and, if_false]

theorem arrive_topTasks : ((arrive p s).rq cpu).topTasks =
    if cpu = s.taskCpu p then
      migrateTopTasksAddition (s.wts p).currWindow (s.wts p).prevWindow (s.rq cpu).topTasks
    else (s.rq cpu).topTasks :=
  addToDestination_topTasks p s cpu

theorem joinGroup_topTasks : ((transferToGroup topo p newTask s).rq cpu).topTasks =
    (s.rq cpu).topTasks :=
  (apply_update Wrq.topTasks (by rfl) cpu).trans ((updateClusterLoadSubtractions_topTasks ..).trans
    (apply_update Wrq.topTasks (by rfl) cpu))

theorem leaveGroup_topTasks : ((transferToRq p newTask s).rq cpu).topTasks = (s.rq cpu).topTasks :=
  (apply_update Wrq.topTasks (by rfl) cpu).trans (apply_update Wrq.topTasks (by rfl) cpu)

end Legs

variable {time : Task → Nat} {members : Finset Task}

section Runs
variable [Fintype Task]

def TopTasksFit (s : State Task Cpu) : Act Task Cpu → Prop
  | .update env p event wallclock irqtime => Room s p ∧
    NoOverflow s env p event wallclock irqtime ∧
    AtUpdate FullCredit s env p event wallclock irqtime
  | .depart p _ => (s.wts p).enqueueAfterMigration = .none →
    (s.rq (s.taskCpu p)).topTasks.curr.Findable (s.wts p).currWindow ∧
    (s.rq (s.taskCpu p)).topTasks.prev.Findable (s.wts p).prevWindow
  | .arrive p => Room s p
  | _ => True

instance decidableTopTasksFit (s : State Task Cpu) : ∀ a, Decidable (TopTasksFit s a) := by
  rintro (_ | _) <;> (dsimp only [TopTasksFit]; infer_instance)

variable {topo : Topology Cpu} {s t : State Task Cpu}

theorem topTasksShow_init (core : Core Task Cpu) (window tick : Nat) (cpu : Cpu) :
    TopTasksShow (waltInitStopHandler core window tick) cpu := by
  have hkey (time : Wrq → Wts Cpu → Nat)
      (htime : ∀ q p, time q ((waltInitStopHandler core window tick).wts p) = 0) :
      count (countedKey time (waltInitStopHandler core window tick) cpu) = fun _ => 0 := by
    funext i
    by_contra hne
    obtain ⟨p, hp⟩ := count_ne_zero.1 hne
    rw [countedKey, htime, loadKey_zero, ite_self] at hp
    cases hp
  refine ⟨?_, ?_⟩
  · rw [hkey currTime fun q p => (times_zero rfl rfl).1]
    exact shows_emptySlot
  · rw [hkey prevTime fun q p => (times_zero rfl rfl).2]
    exact shows_emptySlot

theorem TopTasksShow.update {env : Env} {p : Task} {event : TaskEvent} {wallclock irqtime : Nat}
    (hs : ∀ cpu, TopTasksShow s cpu) (hgrid : Grid s) (hplaced : Placed s)
    (hcall : CoreCall s (.update env p event wallclock irqtime))
    (hontime : OnTime s (.update env p event wallclock irqtime))
    (hok : TopTasksFit s (.update env p event wallclock irqtime))
    (h : waltUpdateTaskRavg env p event wallclock irqtime s = some t) (cpu : Cpu) :
    TopTasksShow t cpu := by
  rcases update_cases h with ⟨rfl, -⟩ | ⟨q, hupd⟩
  · exact hs cpu
  · obtain ⟨k, hin, hq, hacc⟩ := update_advance hgrid.agreed.window_pos hontime.1 h hupd
    have hfits := hok.2.1.fits hupd
    have hcredit := hok.2.2.of_updated hupd
    rw [hq] at hfits hcredit
    have hplaced' : Placed (s.advance (s.taskCpu p) wallclock k) :=
      hplaced.of_same rfl rfl (fun _ => .inl) fun _ => ⟨rfl, rfl, rfl⟩
    exact TopTasksShow.account (hgrid.advance hin) hplaced' hcall hacc hin.advanced.2 hontime.2.2
      (fun c => (hs c).advance hgrid) hok.1 hfits hcredit cpu

theorem keys_of_sameWindows {p' : Task} {cpu : Cpu} (h : SameWindows s t)
    (hflag : (t.wts p').enqueueAfterMigration = (s.wts p').enqueueAfterMigration)
    (hcpu : t.taskCpu p' = s.taskCpu p') :
    countedKey currTime t cpu p' = countedKey currTime s cpu p' ∧
      countedKey prevTime t cpu p' = countedKey prevTime s cpu p' := by
  have hcounted : Counted t cpu p' ↔ Counted s cpu p' :=
    counted_congr ⟨(h.wts p').idle, hflag⟩ hcpu
  exact ⟨countedKey_congr hcounted (currTime_congr (h.rq cpu) (h.wts p')),
    countedKey_congr hcounted (prevTime_congr (h.rq cpu) (h.wts p'))⟩

theorem topTasksShow_of_absent {p : Task} {cpu : Cpu} (hs : TopTasksShow s cpu)
    (htop : (t.rq cpu).topTasks = (s.rq cpu).topTasks)
    (hkeys : ∀ p', p' ≠ p → countedKey currTime t cpu p' = countedKey currTime s cpu p' ∧
      countedKey prevTime t cpu p' = countedKey prevTime s cpu p')
    (hbefore : ¬ Counted s cpu p) (hafter : ¬ Counted t cpu p) : TopTasksShow t cpu := by
  refine topTasksShow_of_keys hs htop (fun p' => ?_) (fun p' => ?_)
  · by_cases hne : p' = p
    · rw [hne, countedKey_of_not hbefore, countedKey_of_not hafter]
    · exact (hkeys p' hne).1
  · by_cases hne : p' = p
    · rw [hne, countedKey_of_not hbefore, countedKey_of_not hafter]
    · exact (hkeys p' hne).2

theorem TopTasksShow.depart {p : Task} {newCpu : Cpu} (hs : ∀ cpu, TopTasksShow s cpu)
    (hgrid : Grid s) (hidle : (s.wts p).idle = false) (hfresh : Fresh s (.depart p newCpu))
    (hok : TopTasksFit s (.depart p newCpu)) (h : Walt.act topo s (.depart p newCpu) = some t)
    (cpu : Cpu) : TopTasksShow t cpu := by
  have hsame := sameWindows_act h trivial
  obtain rfl := Option.some.inj h
  have hkeys p' (hne : p' ≠ p) : countedKey currTime (Walt.depart topo p newCpu s) cpu p' =
        countedKey currTime s cpu p' ∧
      countedKey prevTime (Walt.depart topo p newCpu s) cpu p' = countedKey prevTime s cpu p' := by
    refine keys_of_sameWindows hsame ?_ ?_
    · rw [depart_wts, Function.update_of_ne hne]
    · rw [(depart_core topo p newCpu s).2.1, Function.update_of_ne hne]
  have hafter : ¬ Counted (Walt.depart topo p newCpu s) cpu p := fun hp => by
    have hflag := hp.2.1
    rw [depart_wts, Function.update_self, (departed_flags _ _ _ _).2.2] at hflag
    exact pendingMigration_ne_none _ _ _ hflag
  by_cases hcounted : Counted s cpu p
  · obtain ⟨-, hflag, rfl⟩ := hcounted
    have hmark : (s.wts p).markStart ≠ 0 := by
      have := hgrid.agreed.start_pos (s.taskCpu p)
      have : (s.rq (s.taskCpu p)).windowStart ≤ (s.wts p).markStart := hfresh
      omega
    obtain ⟨hcurr, hprev⟩ := times_here (hgrid.window_eq hfresh (hgrid.here p hmark hflag))
    have hm := count_moves p fun p' hne => (hkeys p' hne).1
    have hm' := count_moves p fun p' hne => (hkeys p' hne).2
    rw [countedKey_of_not hafter, countedKey_of_counted ⟨hidle, hflag, rfl⟩] at hm hm'
    rw [hcurr] at hm
    rw [hprev] at hm'
    refine ⟨?_, ?_⟩
    · simpa [depart_topTasks, hflag, migrateTopTasksSubtraction] using
        (hs _).curr.removeTask hm (hok hflag).1
    · simpa [depart_topTasks, hflag, migrateTopTasksSubtraction] using
        (hs _).prev.removeTask hm' (hok hflag).2
  · refine topTasksShow_of_absent (hs cpu) ?_ hkeys hcounted hafter
    rw [depart_topTasks, if_neg fun hboth => hcounted ⟨hidle, hboth.1, hboth.2.symm⟩]

theorem TopTasksShow.arrive {p : Task} (hs : ∀ cpu, TopTasksShow s cpu) (hgrid : Grid s)
    (hplaced : Placed s) (hready : Ready s (.arrive p)) (hontime : OnTime s (.arrive p))
    (hfresh : Fresh s (.arrive p)) (hroom : Room s p)
    (h : Walt.act topo s (.arrive p) = some t) (cpu : Cpu) : TopTasksShow t cpu := by
  have hsame := sameWindows_act h trivial
  obtain rfl := Option.some.inj h
  obtain ⟨hi, -, hf⟩ := arrived_flags (s.taskCpu p) (s.wts p)
  have hcore := (arrive_core p s).2.1
  have hkeys cpu p' (hne : p' ≠ p) : countedKey currTime (Walt.arrive p s) cpu p' =
        countedKey currTime s cpu p' ∧
      countedKey prevTime (Walt.arrive p s) cpu p' = countedKey prevTime s cpu p' := by
    refine keys_of_sameWindows hsame ?_ ?_
    · rw [arrive_wts, Function.update_of_ne hne]
    · rw [hcore]
  have hbefore : ¬ Counted s cpu p := fun hp => hready hp.2.1
  by_cases hcpu : cpu = s.taskCpu p
  · subst hcpu
    have hidle : (s.wts p).idle = false := by
      by_contra hnot
      exact hready (hplaced.settled p (.inr (.inl (by simpa using hnot))))
    have hafter : Counted (Walt.arrive p s) (s.taskCpu p) p := by
      rw [Counted, arrive_wts, Function.update_self, hi, hf, hcore]
      exact ⟨hidle, rfl, rfl⟩
    have hws : ((Walt.arrive p s).wts p).windowStart =
        ((Walt.arrive p s).rq (s.taskCpu p)).windowStart := by
      rw [(hsame.wts p).windowStart, (hsame.rq _).windowStart]
      exact hgrid.window_eq hfresh hontime
    obtain ⟨hcurr, hprev⟩ := times_here hws
    have hm := count_moves p fun p' hne => (hkeys (s.taskCpu p) p' hne).1
    have hm' := count_moves p fun p' hne => (hkeys (s.taskCpu p) p' hne).2
    rw [countedKey_of_not hbefore, countedKey_of_counted hafter] at hm hm'
    rw [hcurr, (hsame.wts p).currWindow] at hm
    rw [hprev, (hsame.wts p).prevWindow] at hm'
    refine ⟨?_, ?_⟩
    · simpa [arrive_topTasks, migrateTopTasksAddition] using (hs _).curr.addTask hm (count_fits hroom window_of_currTime
        fun p' hne => (hkeys (s.taskCpu p) p' hne).1)
    · simpa [arrive_topTasks, migrateTopTasksAddition] using (hs _).prev.addTask hm' (count_fits hroom window_of_prevTime
        fun p' hne => (hkeys (s.taskCpu p) p' hne).2)
  · refine topTasksShow_of_absent (hs cpu) ?_ (hkeys cpu) hbefore fun hp => ?_
    · rw [arrive_topTasks, if_neg hcpu]
    · exact hcpu (hp.2.2.symm.trans (congrFun hcore p))

theorem TopTasksShow.act {a : Act Task Cpu} (hs : ∀ cpu, TopTasksShow s cpu) (hgrid : Grid s)
    (hplaced : Placed s) (hready : Ready s a) (hcall : CoreCall s a) (hontime : OnTime s a)
    (hfresh : Fresh s a) (hok : TopTasksFit s a) (h : Walt.act topo s a = some t) (cpu : Cpu) :
    TopTasksShow t cpu := by
  have hquiet (hkeeps : a.KeepsWindows) (htop : (t.rq cpu).topTasks = (s.rq cpu).topTasks)
      (hflag : ∀ p, (t.wts p).enqueueAfterMigration = (s.wts p).enqueueAfterMigration)
      (hcpu : t.taskCpu = s.taskCpu) : TopTasksShow t cpu :=
    have hsame := sameWindows_act h hkeeps
    topTasksShow_of_same (hs cpu) htop (hsame.rq cpu) hsame.wts fun p =>
      counted_congr ⟨(hsame.wts p).idle, hflag p⟩ (by rw [hcpu])
  cases a <;> try obtain rfl := Option.some.inj h
  case update env p event wallclock irqtime =>
    exact TopTasksShow.update hs hgrid hplaced hcall hontime hok h cpu
  case depart p newCpu => exact TopTasksShow.depart hs hgrid hready.1 hfresh hok h cpu
  case arrive p => exact TopTasksShow.arrive hs hgrid hplaced hready hontime hfresh hok h cpu
  case joinGroup p newTask =>
    refine hquiet trivial (joinGroup_topTasks topo p newTask s cpu) (fun p' => ?_) rfl
    rw [joinGroup_wts]
    exact apply_update Wts.enqueueAfterMigration (by rfl) p'
  case leaveGroup p newTask =>
    refine hquiet trivial (leaveGroup_topTasks p newTask s cpu) (fun p' => ?_) rfl
    rw [leaveGroup_wts]
    exact apply_update Wts.enqueueAfterMigration (by rfl) p'
  case accountSubs c =>
    exact hquiet trivial (apply_update Wrq.topTasks (by rfl) cpu) (fun _ => rfl) rfl
  case changeWindow thisCpu wallclock newWindow =>
    simp only [Walt.changeWindow]
    split_ifs
    · exact topTasksShow_of_keys (hs cpu) rfl (fun _ => rfl) (fun _ => rfl)
    · exact hs cpu
  case switch _ _ | enqueue _ _ _ | dequeue _ | misfit _ _ _ | setClass _ _ =>
    have haside := aside_act h trivial
    obtain ⟨stats, hrq⟩ := haside.rq cpu
    exact hquiet trivial (by rw [hrq]) (fun p => (haside.flags p).2.2) haside.taskCpu

def accounted (s : State Task Cpu) (cpu : Cpu) : Finset Task := Finset.univ.filter (Counted s cpu)

/- One tracked window counts the tasks `members` by the index of their time in it. -/
structure Slot.Tracks (slot : Slot) (members : Finset Task) (time : Task → Nat) : Prop where
  bitmap : ∀ i, i < NUM_LOAD_INDICES →
    (slot.bitmap (NUM_LOAD_INDICES - 1 - i) = true ↔ slot.table i ≠ 0)
  table : ∀ i, slot.table i = (members.filter fun p => time p ≠ 0 ∧ loadToIndex (time p) = i).card
  top_bound : ∀ i, slot.table i ≠ 0 → i ≤ slot.top
  top_occupied : slot.top ≠ 0 → slot.table slot.top ≠ 0

theorem countedKey_eq_some {time : Wrq → Wts Cpu → Nat} {cpu : Cpu} {p : Task} {i : Nat} :
    countedKey time s cpu p = some i ↔ Counted s cpu p ∧ time (s.rq cpu) (s.wts p) ≠ 0 ∧
      loadToIndex (time (s.rq cpu) (s.wts p)) = i := by
  simp only [countedKey, loadKey]
  split_ifs <;> simp_all

theorem Slot.Shows.tracks {slot : Slot} {time : Wrq → Wts Cpu → Nat} {cpu : Cpu}
    (h : slot.Shows (count (countedKey time s cpu))) :
    slot.Tracks (accounted s cpu) fun p => time (s.rq cpu) (s.wts p) := by
  refine ⟨fun i hi => ?_, fun i => ?_, fun i hi => ?_, fun htop => ?_⟩
  · rw [h.table]
    exact h.bitmap i hi
  · rw [h.table, count_eq_card, accounted, filter_filter]
    simp only [countedKey_eq_some]
  · rw [h.table] at hi
    exact h.top.bound i hi
  · rw [h.table]
    exact h.top.occupied htop

def indexLoad (schedRavgWindow index : Nat) : Nat :=
  if index = NUM_LOAD_INDICES - 1 then schedRavgWindow else (index + 1) * schedLoadGranule

theorem Slot.Tracks.eq_zero {slot : Slot} (h : slot.Tracks members time)
    (hnone : ∀ p ∈ members, time p = 0) (i : Nat) : slot.table i = 0 := by
  rw [h.table, card_eq_zero, filter_eq_empty_iff]
  exact fun p hp htime => htime.1 (hnone p hp)

theorem Slot.Tracks.top_eq {slot : Slot} (h : slot.Tracks members time) {p : Task}
    (hp : p ∈ members) (htime : time p ≠ 0) (hmax : ∀ p' ∈ members, time p' ≤ time p) :
    slot.top = loadToIndex (time p) ∧ slot.table slot.top ≠ 0 := by
  have hocc : slot.table (loadToIndex (time p)) ≠ 0 := by
    rw [h.table, card_ne_zero]
    exact ⟨p, mem_filter.2 ⟨hp, htime, rfl⟩⟩
  have hle := h.top_bound _ hocc
  have heq : slot.top = loadToIndex (time p) := by
    by_cases htop : slot.top = 0
    · omega
    · have hne := h.top_occupied htop
      rw [h.table, card_ne_zero] at hne
      obtain ⟨p', hp'⟩ := hne
      obtain ⟨hmem, -, hindex⟩ := mem_filter.1 hp'
      have := loadToIndex_mono (hmax p' hmem)
      omega
  exact ⟨heq, heq ▸ hocc⟩

theorem topTaskLoad_eq {tables : TopTasks} (h : tables.prev.Tracks members time)
    (schedRavgWindow : Nat) :
    ((∀ p ∈ members, time p = 0) → topTaskLoad schedRavgWindow tables = 0) ∧
    ∀ p ∈ members, time p ≠ 0 → (∀ p' ∈ members, time p' ≤ time p) →
      topTaskLoad schedRavgWindow tables = indexLoad schedRavgWindow (loadToIndex (time p)) := by
  have hbit : tables.bitmap (1 - tables.currTable) (NUM_LOAD_INDICES - 1) = true ↔
      tables.prev.table 0 ≠ 0 := h.bitmap 0 (by decide)
  refine ⟨fun hnone => ?_, fun p hp htime hmax => ?_⟩
  · have hzero := h.eq_zero hnone
    have htop : tables.prevTop = 0 := by
      by_contra hne
      exact h.top_occupied hne (hzero _)
    rw [topTaskLoad, if_pos htop, if_neg fun hset => hbit.1 hset (hzero 0)]
  · obtain ⟨htop, hocc⟩ := h.top_eq hp htime hmax
    have htop : tables.prevTop = loadToIndex (time p) := htop
    rw [topTaskLoad, indexLoad, ← htop]
    by_cases hzero : tables.prevTop = 0
    · have hfirst : tables.prev.top = 0 := hzero
      rw [hfirst] at hocc
      rw [if_pos hzero, if_pos (hbit.2 hocc), hzero, if_neg (by decide), Nat.zero_add, Nat.one_mul]
    · rw [if_neg hzero]

/-- Along a run of hooks that are on time, whose counts fit u8, whose whole-window credits do not
fall below the stored top and whose departures leave no index out of reach of get_top_index, both
tracked windows of every CPU count the tasks accounted there, and top_task_load reports the
heaviest one. -/
theorem top_tasks_track_accounted_tasks [Nonempty Cpu] (topo : Topology Cpu)
    (core : Core Task Cpu) {window tick : Nat} (hwindow : 0 < window) (htick : 0 < tick)
    {es : List (Event Task Cpu)} {t : State Task Cpu}
    (hok : Along (step topo) (fun s e => HookCall s e ∧
      Throughout topo (fun s a => OnTime s a ∧ TopTasksFit s a) s e)
      (waltInitStopHandler core window tick) es)
    (h : run (step topo) (waltInitStopHandler core window tick) es = some t) (cpu : Cpu) :
    (t.rq cpu).topTasks.curr.Tracks (accounted t cpu) (fun p => currTime (t.rq cpu) (t.wts p)) ∧
    (t.rq cpu).topTasks.prev.Tracks (accounted t cpu) (fun p => prevTime (t.rq cpu) (t.wts p)) ∧
    ((∀ p ∈ accounted t cpu, prevTime (t.rq cpu) (t.wts p) = 0) →
      topTaskLoad t.schedRavgWindow (t.rq cpu).topTasks = 0) ∧
    ∀ p ∈ accounted t cpu, prevTime (t.rq cpu) (t.wts p) ≠ 0 →
      (∀ p' ∈ accounted t cpu, prevTime (t.rq cpu) (t.wts p') ≤ prevTime (t.rq cpu) (t.wts p)) →
      topTaskLoad t.schedRavgWindow (t.rq cpu).topTasks =
        indexLoad t.schedRavgWindow (loadToIndex (prevTime (t.rq cpu) (t.wts p))) := by
  have hinv := (grid_invariant (I := fun s : State Task Cpu => ∀ cpu, TopTasksShow s cpu)
    (fun s a t hplaced hgrid hs hready hcall hontime hfresh hok h =>
      TopTasksShow.act hs hgrid hplaced hready hcall hontime hfresh hok h)
    (placed_init core window tick) (grid_init core hwindow htick)
    (topTasksShow_init core window tick) hok h).2.2 cpu
  have hload := topTaskLoad_eq hinv.prev.tracks t.schedRavgWindow
  exact ⟨hinv.curr.tracks, hinv.prev.tracks, hload.1, hload.2⟩

end Runs

theorem top_tasks_track_a_window :
    let es : List (Event (Fin 5) (Fin 3)) :=
      [.enqueueTask plainEnv 3 false false 0 true false,
        .schedule plainEnv plainEnv 0 3 1614000000, .tickEntry plainEnv 0 1618000000]
    ∃ t, run (step littleBig) (waltInitStopHandler littleBigCore 16000000 1600000000) es = some t ∧
      (t.rq 0).topTasks.prev.Tracks (accounted t 0) (fun p => prevTime (t.rq 0) (t.wts p)) ∧
      prevTime (t.rq 0) (t.wts 3) = 2000000 ∧
      topTaskLoad t.schedRavgWindow (t.rq 0).topTasks = 126 * schedLoadGranule := by
  intro es
  obtain ⟨t, ht, htime, hload⟩ : ∃ t,
      run (step littleBig) (waltInitStopHandler littleBigCore 16000000 1600000000) es = some t ∧
        prevTime (t.rq 0) (t.wts 3) = 2000000 ∧
        topTaskLoad t.schedRavgWindow (t.rq 0).topTasks = 126 * schedLoadGranule :=
    exists_run_of_map (by decide +kernel)
  exact ⟨t, ht, (top_tasks_track_accounted_tasks littleBig littleBigCore (by decide) (by decide)
    (by decide +kernel) ht 0).2.1, htime, hload⟩

/-- Task 3 has 8 ms in the window of CPU 0 and task 4 has 12 ms. Task 4 passes through CPU 0, and
when it leaves, get_top_index starts at bit 750 of the reversed bitmap, after the bit of task 3. -/
theorem departure_loses_the_heaviest_task :
    ∃ t, run (step littleBig) (waltInitStopHandler littleBigCore 16000000 1600000000)
        [.enqueueTask plainEnv 3 false false 0 true false,
          .enqueueTask plainEnv 4 false false 0 true false,
          .schedule plainEnv plainEnv 0 3 1600000001, .schedule plainEnv plainEnv 1 4 1600000001,
          .tickEntry plainEnv 0 1608000001, .dequeueTask 4 false,
          .schedule plainEnv plainEnv 1 1 1612000001, .setTaskCpu plainEnv 4 0 1612100000,
          .enqueueTask plainEnv 4 false false 1612200000 true false, .dequeueTask 4 false,
          .setTaskCpu plainEnv 4 1 1612300000] = some t ∧
      currTime (t.rq 0) (t.wts 3) = 8000000 ∧ Counted t 0 3 ∧
      (t.rq 0).topTasks.curr.table 500 = 1 ∧ (t.rq 0).topTasks.currTop = 0 :=
  exists_run_of_map (by decide +kernel)

end MsmKernel.Walt
