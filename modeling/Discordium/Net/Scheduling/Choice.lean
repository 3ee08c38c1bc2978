import Discordium.Net.Scheduling.Plans

/-!
# Net — Scheduling — Choice

What a plan selects.  The units that are due stand in one list, in the order they are served; two
greedy passes go over it, the first for critical units up to the reserve, the second for everything
that still fits.  Whatever a pass leaves behind did not fit at its turn, and what is used only
grows, so that nothing later and at least as large is taken by the same pass.

**The selection** (`schedule_selects`): its units are due, feasible, distinct and within the budget,
nothing left behind fits in what is left over, and the order of the requests does not matter.
-/

namespace Net.Scheduling
open Lib Interest
open Std (ExtTreeMap ExtTreeSet)

/-! ### The order of service -/

namespace Due

/-- `order` as a lexicographic comparison. -/
theorem order_eq : order = compareLex (compareLex (compareLex (fun a b => compareOn overdue b a)
    (fun a b => compareOn (fun due : Due => due.age - due.request.cadence.maximumAgeTicks) b a))
      (fun a b => compareOn score b a)) (compareOn fun due : Due => due.request.id) := rfl

instance : Std.TransCmp order := by
  rw [order_eq]
  infer_instance

variable {a b : Due}

theorem eq_of_order_eq (h : a.order b = .eq) : a.request.id = b.request.id := by
  rw [order, Ordering.then_eq_eq] at h
  exact Std.compare_eq_iff_eq.mp h.2

theorem before_iff : a.before b ↔ (a.order b).isLE = true := by
  unfold before
  cases a.order b <;> decide

theorem not_before_of_lt (h : a.order b = .lt) : ¬b.before a :=
  not_not.mpr (Std.OrientedCmp.gt_of_lt h)

instance : Std.Total before := ⟨fun a b => by
  by_cases h : a.order b = .gt
  · refine .inr fun h' => ?_
    exact absurd h' (Std.OrientedCmp.not_gt_of_gt h)
  · exact .inl h⟩

instance : IsTrans Due before := ⟨fun _ _ _ hab hbc =>
  before_iff.mpr (Std.TransCmp.isLE_trans (before_iff.mp hab) (before_iff.mp hbc))⟩

/-- Units that stand before each other are the same. -/
theorem id_eq_of_before (hab : a.before b) (hba : b.before a) : a.request.id = b.request.id := by
  refine eq_of_order_eq ?_
  have hswap : b.order a = (a.order b).swap := Std.OrientedCmp.eq_swap
  unfold before at hab hba
  rw [hswap] at hba
  cases hord : a.order b with
  | eq => rfl
  | lt => exact absurd (by rw [hord]; rfl) hba
  | gt => exact absurd hord hab

end Due

namespace Scheduler
variable {scheduler : Scheduler} {eligible : Interest.EligibleSet}
  {requests requests' : List UnitRequest} {now serial : ℕ}
  {transport : TransportBudget} {seen : Seen}

theorem mem_queue {due : Due} :
    due ∈ scheduler.queue transport requests ↔
      ∃ request ∈ requests, scheduler.isDue request = true ∧
        scheduler.dueOf transport request = due := by
  simp [queue, dueList, and_assoc]

theorem dueOf_mem_queue {request : UnitRequest} :
    scheduler.dueOf transport request ∈ scheduler.queue transport requests ↔
      request ∈ requests ∧ scheduler.isDue request = true := by
  rw [mem_queue]
  constructor
  · rintro ⟨other, hother, hdue, heq⟩
    obtain rfl : other = request := congrArg Due.request heq
    exact ⟨hother, hdue⟩
  · exact fun ⟨hrequest, hdue⟩ => ⟨request, hrequest, hdue, rfl⟩

theorem queue_ids (h : (requests.map (·.id)).Nodup) :
    ((scheduler.queue transport requests).map (·.request.id)).Nodup := by
  refine ((List.perm_insertionSort _ _).map _).nodup_iff.mpr ?_
  rw [dueList, List.map_map]
  exact h.sublist (List.filter_sublist.map _)

/-- A unit with more urgency stands before one with less. -/
theorem queue_split {u v : Due} (hu : u ∈ scheduler.queue transport requests)
    (hv : v ∈ scheduler.queue transport requests) (horder : u.order v = .lt) :
    ∃ before between after, scheduler.queue transport requests =
      before ++ u :: (between ++ v :: after) := by
  obtain ⟨before, rest, hsplit⟩ := List.append_of_mem hu
  have hsorted : (scheduler.queue transport requests).Pairwise Due.before :=
    List.pairwise_insertionSort _ _
  rw [hsplit] at hv hsorted
  rcases List.mem_append.mp hv with hv | hv
  · exact absurd ((List.pairwise_append.mp hsorted).2.2 v hv u List.mem_cons_self)
      (Due.not_before_of_lt horder)
  · rcases List.mem_cons.mp hv with rfl | hv
    · have hself : v.order v = .eq := Std.ReflCmp.compare_self
      rw [hself] at horder
      cases horder
    · obtain ⟨between, after, hbetween⟩ := List.append_of_mem hv
      exact ⟨before, between, after, by rw [hsplit, hbetween]⟩

/-- **The order of the requests does not matter** for what is served. -/
theorem queue_perm (h : (requests.map (·.id)).Nodup) (hperm : requests.Perm requests') :
    scheduler.queue transport requests' = scheduler.queue transport requests := by
  refine List.Perm.eq_of_pairwise (fun a b ha hb hab hba => ?_) (List.pairwise_insertionSort _ _)
    (List.pairwise_insertionSort _ _) ?_
  · have hqueue : scheduler.queue transport requests' ⊆ scheduler.queue transport requests :=
      fun due hdue => by
      rw [mem_queue] at hdue ⊢
      obtain ⟨request, hrequest, hdue⟩ := hdue
      exact ⟨request, hperm.mem_iff.mpr hrequest, hdue⟩
    exact List.inj_on_of_nodup_map (queue_ids h) (hqueue ha) hb (Due.id_eq_of_before hab hba)
  · refine (List.perm_insertionSort _ _).trans (.trans ?_ (List.perm_insertionSort _ _).symm)
    exact (hperm.symm.filter _).map _

/-! ### The two passes -/

section Passes
open Selection
variable {due : List Due} {budget : ℕ} {u v : Due} {taken before after : List Due}

theorem takesCritical_iff {reserve : ℕ} :
    takesCritical budget reserve taken u = true ↔ u.infeasible = false ∧
      u.request.cadence.critical = true ∧ load wire taken < reserve ∧
        wire u ≤ budget - load wire taken := by
  simp [takesCritical, and_assoc]

theorem takesRemaining_iff :
    takesRemaining budget taken u = true ↔ u.infeasible = false ∧ u.request.id ∉ taken.map
      (·.request.id) ∧ wire u ≤ budget - load wire taken := by
  simp [takesRemaining, and_assoc]

theorem firstPass_extends : scheduler.firstPass budget due <+: scheduler.bothPasses budget due :=
  prefix_greedy due

/-- The critical units taken are some of those due. -/
theorem firstPass_sublist : (scheduler.firstPass budget due).Sublist due := by
  obtain ⟨new, hnew, hsub⟩ :=
    greedy_eq_append (takesCritical budget (scheduler.reserve budget)) [] due
  rw [firstPass, hnew]
  exact hsub

theorem load_firstPass_le : load wire (scheduler.firstPass budget due) ≤ budget :=
  load_greedy_le (Nat.zero_le _) fun _ _ h => (takesCritical_iff.mp h).2.2.2

theorem load_bothPasses_le : load wire (scheduler.bothPasses budget due) ≤ budget :=
  load_greedy_le load_firstPass_le fun _ _ h => (takesRemaining_iff.mp h).2.2

/-- What is taken is due and feasible. -/
theorem mem_of_taken (h : u ∈ scheduler.bothPasses budget due) :
    u ∈ due ∧ u.infeasible = false := by
  have hfirst : ∀ u ∈ scheduler.firstPass budget due, u ∈ due ∧ u.infeasible = false :=
    greedy_invariant (P := fun taken => ∀ u ∈ taken, u ∈ due ∧ u.infeasible = false) (by simp)
      fun taken a ha htaken hok u hu => by
        rcases List.mem_append.mp hu with hu | hu
        · exact htaken u hu
        · rw [List.mem_singleton.mp hu]
          exact ⟨ha, (takesCritical_iff.mp hok).1⟩
  refine greedy_invariant (P := fun taken => ∀ u ∈ taken, u ∈ due ∧ u.infeasible = false) hfirst
    (fun taken a ha htaken hok u hu => ?_) u h
  rcases List.mem_append.mp hu with hu | hu
  · exact htaken u hu
  · rw [List.mem_singleton.mp hu]
    exact ⟨ha, (takesRemaining_iff.mp hok).1⟩

theorem taken_ids (hids : (due.map (·.request.id)).Nodup) :
    ((scheduler.bothPasses budget due).map (·.request.id)).Nodup := by
  refine greedy_invariant (P := fun taken => (taken.map (·.request.id)).Nodup)
    (hids.sublist (firstPass_sublist.map _)) fun taken a _ htaken hok => ?_
  rw [List.map_append, List.map_singleton]
  refine htaken.append (List.nodup_singleton _) fun id hid hlast => ?_
  rw [List.mem_singleton.mp hlast] at hid
  exact (takesRemaining_iff.mp hok).2.1 hid

/-- A unit that is left behind has no other of its identity among what is taken. -/
theorem id_notMem (hids : (due.map (·.request.id)).Nodup) (hu : u ∈ due)
    (hleft : u ∉ scheduler.bothPasses budget due)
    (htaken : taken <+: scheduler.bothPasses budget due) :
    u.request.id ∉ taken.map (·.request.id) := by
  intro hmem
  obtain ⟨other, hother, heq⟩ := List.mem_map.mp hmem
  have hother := htaken.subset hother
  exact hleft (List.inj_on_of_nodup_map hids (mem_of_taken hother).1 hu heq ▸ hother)

/-- What is taken before a turn is part of what is taken. -/
theorem pass_extends (hsplit : due = before ++ after) :
    greedy (takesRemaining budget) (scheduler.firstPass budget due) before <+:
      scheduler.bothPasses budget due := by
  rw [bothPasses]
  nth_rewrite 3 [hsplit]
  rw [greedy_append]
  exact prefix_greedy _

/-- A feasible unit that is left behind did not fit at its turn. -/
theorem left_at_turn (hids : (due.map (·.request.id)).Nodup) (hfeasible : u.infeasible = false)
    (hleft : u ∉ scheduler.bothPasses budget due) (hsplit : due = before ++ u :: after) :
    budget - load wire (greedy (takesRemaining budget) (scheduler.firstPass budget due) before) <
      wire u := by
  have hu : u ∈ due := hsplit ▸ List.mem_append_right _ List.mem_cons_self
  by_contra hfits
  have hok := takesRemaining_iff.mpr ⟨hfeasible, id_notMem hids hu hleft (pass_extends hsplit),
    not_lt.mp hfits⟩
  refine hleft ?_
  rw [bothPasses]
  nth_rewrite 2 [hsplit]
  exact (greedy_turn hok).subset (List.mem_append_right _ List.mem_cons_self)

/-- **Nothing left behind fits** in the budget left over. -/
theorem left_over (hids : (due.map (·.request.id)).Nodup) (hu : u ∈ due)
    (hfeasible : u.infeasible = false) (hleft : u ∉ scheduler.bothPasses budget due) :
    budget - load wire (scheduler.bothPasses budget due) < wire u := by
  obtain ⟨before, after, hsplit⟩ := List.append_of_mem hu
  exact lt_of_le_of_lt (Nat.sub_le_sub_left (load_le_of_taken (pass_extends hsplit)) _)
    (left_at_turn hids hfeasible hleft hsplit)

/-- A critical unit that the first pass leaves came after the reserve was used, or did not fit. -/
theorem critical_at_turn (hfeasible : u.infeasible = false)
    (hcritical : u.request.cadence.critical = true) (hleft : u ∉ scheduler.firstPass budget due)
    (hsplit : due = before ++ u :: after) :
    scheduler.reserve budget ≤
        load wire (greedy (takesCritical budget (scheduler.reserve budget)) [] before) ∨
      budget - load wire (greedy (takesCritical budget (scheduler.reserve budget)) [] before) <
        wire u := by
  by_contra hturn
  rw [not_or, not_le, not_lt] at hturn
  refine hleft ?_
  rw [firstPass, hsplit]
  exact (greedy_turn (takesCritical_iff.mpr ⟨hfeasible, hcritical, hturn⟩)).subset
    (List.mem_append_right _ List.mem_cons_self)

/-- **A more urgent unit is passed over** only for a critical one, or for a smaller one. -/
theorem passed_over (hids : (due.map (·.request.id)).Nodup) {between : List Due}
    (hsplit : due = before ++ u :: (between ++ v :: after)) (hfeasible : u.infeasible = false)
    (hleft : u ∉ scheduler.bothPasses budget due) (htaken : v ∈ scheduler.bothPasses budget due) :
    v.request.cadence.critical = true ∧ u.request.cadence.critical = false ∨ wire v < wire u := by
  have hsplit' : due = (before ++ u :: between) ++ v :: after := by
    rw [hsplit, List.append_assoc, List.cons_append]
  have hnodup : ((before ++ u :: between) ++ v :: after).Nodup := hsplit' ▸ .of_map _ hids
  obtain ⟨-, hrest, hdisjoint⟩ := List.nodup_append'.mp hnodup
  have hbefore : v ∉ before ++ u :: between := fun hmem => hdisjoint hmem List.mem_cons_self
  have hafter : v ∉ after := (List.nodup_cons.mp hrest).1
  by_cases hfirst : v ∈ scheduler.firstPass budget due
  · -- taken by the first pass
    rw [firstPass, hsplit', mem_greedy_iff List.not_mem_nil hbefore hafter] at hfirst
    obtain ⟨-, hcritical, hreserve, hfits⟩ := takesCritical_iff.mp hfirst
    by_cases hu : u.request.cadence.critical = true
    · have hgrown : load wire (greedy (takesCritical budget (scheduler.reserve budget)) [] before) ≤
          load wire (greedy (takesCritical budget (scheduler.reserve budget)) []
            (before ++ u :: between)) := by
        rw [greedy_append]
        exact load_le_of_taken (prefix_greedy _)
      have hturn :=
        critical_at_turn hfeasible hu (fun hmem => hleft (firstPass_extends.subset hmem)) hsplit
      exact .inr (by omega)
    · exact .inl ⟨hcritical, Bool.eq_false_iff.mpr hu⟩
  · -- taken by the second pass, before which the other had its turn
    have hturn := left_at_turn hids hfeasible hleft hsplit
    have hgrown :
        load wire (greedy (takesRemaining budget) (scheduler.firstPass budget due) before) ≤
        load wire (greedy (takesRemaining budget) (scheduler.firstPass budget due)
          (before ++ u :: between)) := by
      rw [greedy_append]
      exact load_le_of_taken (prefix_greedy _)
    have hok : takesRemaining budget
        (greedy (takesRemaining budget) (scheduler.firstPass budget due) (before ++ u :: between))
          v = true := by
      rw [← mem_greedy_iff hfirst hbefore hafter, ← hsplit']
      exact htaken
    have hfits := (takesRemaining_iff.mp hok).2.2
    exact .inr (by omega)

/-- **A critical unit is left behind** only when the critical ones taken use the reserve, or the
room. -/
theorem critical_left (hu : u ∈ due) (hfeasible : u.infeasible = false)
    (hcritical : u.request.cadence.critical = true) (hleft : u ∉ scheduler.bothPasses budget due) :
    scheduler.reserve budget ≤
        load wire ((scheduler.bothPasses budget due).filter (·.request.cadence.critical)) ∨
      budget - load wire ((scheduler.bothPasses budget due).filter (·.request.cadence.critical)) <
        wire u := by
  obtain ⟨before, after, hsplit⟩ := List.append_of_mem hu
  have hturn :=
    critical_at_turn hfeasible hcritical (fun hmem => hleft (firstPass_extends.subset hmem)) hsplit
  -- the first pass takes critical units only
  have hall : ∀ d ∈ scheduler.firstPass budget due, d.request.cadence.critical = true :=
    greedy_invariant (P := fun taken : List Due => ∀ d ∈ taken,
      d.request.cadence.critical = true) (by simp)
      fun taken a _ htaken hok d hd => by
        rcases List.mem_append.mp hd with hd | hd
        · exact htaken d hd
        · rw [List.mem_singleton.mp hd]
          exact (takesCritical_iff.mp hok).2.1
  have hgrown : load wire (greedy (takesCritical budget (scheduler.reserve budget)) [] before) ≤
      load wire ((scheduler.bothPasses budget due).filter (·.request.cadence.critical)) := by
    have hfirst : greedy (takesCritical budget (scheduler.reserve budget)) [] before <+:
        scheduler.firstPass budget due := by
      rw [firstPass, hsplit, greedy_append]
      exact prefix_greedy _
    obtain ⟨rest, hrest⟩ : scheduler.firstPass budget due <+: scheduler.bothPasses budget due :=
      firstPass_extends
    refine (load_le_of_taken hfirst).trans ?_
    rw [← hrest, List.filter_append, List.filter_eq_self.mpr hall, load_append]
    exact Nat.le_add_right _ _
  omega

end Passes

/-! ### Plans -/

variable {scheduler' : Scheduler} {plan : SchedulePlan}

/-- **Inversion of a schedule** that succeeds. -/
theorem schedule_ok
    (h : scheduler.schedule eligible requests now transport = (scheduler', .ok plan)) :
    ∃ seen serial, Checked scheduler eligible requests now seen serial ∧
      scheduler' = scheduler.advance eligible requests now seen serial ∧
      scheduler'.plan eligible requests transport = some plan := by
  unfold schedule at h
  split at h
  · cases h
  rename_i seen serial hvalidate
  dsimp only at h
  split at h
  · cases h
  rename_i plan' hplan
  cases h
  exact ⟨seen, serial, validate_ok_iff.mp hvalidate, rfl, hplan⟩

theorem plan_selected (h : scheduler.plan eligible requests transport = some plan) :
    plan.selected =
      (scheduler.bothPasses (scheduler.budget transport) (scheduler.queue transport requests)).map
        (·.request) := by
  rw [plan_eq] at h
  split_ifs at h
  cases h
  rfl

/-- Notes of different requests can be exchanged. -/
theorem note_comm (metrics : ScheduleMetrics) (a b : UnitRequest) :
    scheduler.note transport (scheduler.note transport metrics a) b =
      scheduler.note transport (scheduler.note transport metrics b) a := by
  simp only [note, ScheduleMetrics.mk.injEq, true_and]
  omega

theorem plan_perm (hids : (requests.map (·.id)).Nodup) (hperm : requests.Perm requests') :
    scheduler.plan eligible requests' transport = scheduler.plan eligible requests transport := by
  have hall : requests'.all scheduler.dated = requests.all scheduler.dated := hperm.symm.all_eq
  have hmetrics : requests'.foldl (scheduler.note transport) .zero =
      requests.foldl (scheduler.note transport) .zero :=
    hperm.symm.foldl_eq' (fun a _ b _ metrics => note_comm metrics a b) _
  rw [plan_eq, plan_eq, hall, hmetrics, queue_perm hids hperm]

/-- The same requests in another order are checked and committed alike. -/
theorem Checked.perm (h : Checked scheduler eligible requests now seen serial)
    (hperm : requests.Perm requests') :
    Checked scheduler eligible requests' now seen serial ∧
      scheduler.advance eligible requests' now seen serial =
        scheduler.advance eligible requests now seen serial := by
  have hmem {κ : Type} [Ord κ] [Std.TransOrd κ] [Std.LawfulEqOrd κ] {l l' : List κ}
      (hl : l.Perm l') :
      l.foldl ExtTreeSet.insert ∅ = l'.foldl ExtTreeSet.insert ∅ :=
    ExtTreeSet.ext_mem fun k => by rw [mem_foldl_insert, mem_foldl_insert, hl.mem_iff]
  have hchecked : Checked scheduler eligible requests' now seen serial :=
    ⟨h.connection, h.now, h.tick, h.world, h.policy, hperm.length_eq ▸ h.units, h.valid.perm hperm,
      by rw [h.seen, hmem (hperm.map _), hmem (hperm.flatMap_right _)], h.serial, h.serial_word⟩
  refine ⟨hchecked, ?_⟩
  have hhistory : (scheduler.advance eligible requests' now seen serial).history =
      (scheduler.advance eligible requests now seen serial).history :=
    ExtTreeMap.ext_getElem? fun id => by
      rw [hchecked.lookup_history, h.lookup_history]
      simp only [(hperm.map (·.id)).mem_iff]
  simp only [advance] at hhistory ⊢
  rw [hhistory]

theorem schedule_perm
    (h : scheduler.schedule eligible requests now transport = (scheduler', .ok plan))
    (hperm : requests.Perm requests') :
    scheduler.schedule eligible requests' now transport = (scheduler', .ok plan) := by
  obtain ⟨seen, serial, hchecked, rfl, hplan⟩ := schedule_ok h
  obtain ⟨hchecked', hadvance⟩ := hchecked.perm hperm
  rw [← plan_perm hchecked.valid.ids hperm] at hplan
  rw [schedule, validate_ok_iff.mpr hchecked']
  dsimp only
  rw [hadvance, hplan]

/-- The bytes of some units on the wire. -/
def wireTotal (units : List UnitRequest) : ℕ := (units.map (·.wireBytes)).sum

theorem wireTotal_map (taken : List Due) :
    wireTotal (taken.map (·.request)) = load Selection.wire taken := by
  rw [wireTotal, List.map_map]
  rfl

/-- One unit is more urgent than another. -/
def Precedes (scheduler : Scheduler) (transport : TransportBudget) (u v : UnitRequest) : Prop :=
  (scheduler.dueOf transport u).order (scheduler.dueOf transport v) = .lt

/-- What a plan selects of the requests, from a state that a schedule has committed. -/
structure Selects (scheduler : Scheduler) (requests : List UnitRequest)
    (transport : TransportBudget) (selected : List UnitRequest) : Prop where
  due : ∀ u ∈ selected, u ∈ requests ∧ scheduler.isDue u = true ∧
    scheduler.feasible transport u = true
  distinct : (selected.map (·.id)).Nodup
  within : wireTotal selected ≤ scheduler.budget transport
  maximal : ∀ u ∈ requests, scheduler.isDue u = true → scheduler.feasible transport u = true →
    u ∉ selected → scheduler.budget transport - wireTotal selected < u.wireBytes
  urgent : ∀ u ∈ requests, scheduler.isDue u = true → scheduler.feasible transport u = true →
    ∀ v ∈ selected, scheduler.Precedes transport u v → u ∉ selected →
      v.cadence.critical = true ∧ u.cadence.critical = false ∨ v.wireBytes < u.wireBytes
  critical : ∀ u ∈ requests, scheduler.isDue u = true → scheduler.feasible transport u = true →
    u.cadence.critical = true → u ∉ selected →
      scheduler.budget transport * scheduler.limits.criticalReserve / 10000 ≤
          wireTotal (selected.filter (·.cadence.critical)) ∨
        scheduler.budget transport - wireTotal (selected.filter (·.cadence.critical)) < u.wireBytes

/-- A unit is selected when its place in the queue is. -/
theorem mem_selected_iff {budget : ℕ} {u : UnitRequest} :
    u ∈ (scheduler.bothPasses budget (scheduler.queue transport requests)).map (·.request) ↔
      scheduler.dueOf transport u ∈
        scheduler.bothPasses budget (scheduler.queue transport requests) := by
  rw [List.mem_map]
  constructor
  · rintro ⟨due, hdue, rfl⟩
    obtain ⟨request, -, -, rfl⟩ := mem_queue.mp (mem_of_taken hdue).1
    exact hdue
  · exact fun hdue => ⟨_, hdue, rfl⟩

theorem selects (hids : (requests.map (·.id)).Nodup) :
    scheduler.Selects requests transport
      ((scheduler.bothPasses (scheduler.budget transport) (scheduler.queue transport requests)).map
        (·.request)) := by
  have hqueue : ((scheduler.queue transport requests).map (·.request.id)).Nodup := queue_ids hids
  have hfeasible {u : UnitRequest} (h : scheduler.feasible transport u = true) :
      (scheduler.dueOf transport u).infeasible = false := by
    simp [dueOf, h]
  refine ⟨fun u hu => ?_, ?_, ?_, fun u hu hdue hfeas hleft => ?_,
    fun u hu hdue hfeas v hv hprec hleft => ?_, fun u hu hdue hfeas hcritical hleft => ?_⟩
  · obtain ⟨hmem, hok⟩ := mem_of_taken (mem_selected_iff.mp hu)
    obtain ⟨hrequest, hdue⟩ := dueOf_mem_queue.mp hmem
    exact ⟨hrequest, hdue, by simpa [dueOf] using hok⟩
  · rw [List.map_map]
    exact taken_ids hqueue
  · rw [wireTotal_map]
    exact load_bothPasses_le
  · rw [mem_selected_iff] at hleft
    rw [wireTotal_map]
    exact left_over hqueue (dueOf_mem_queue.mpr ⟨hu, hdue⟩) (hfeasible hfeas) hleft
  · rw [mem_selected_iff] at hleft hv
    obtain ⟨before, between, after, hsplit⟩ :=
      queue_split (dueOf_mem_queue.mpr ⟨hu, hdue⟩) (mem_of_taken hv).1 hprec
    exact passed_over hqueue hsplit (hfeasible hfeas) hleft hv
  · rw [mem_selected_iff] at hleft
    rw [List.filter_map, wireTotal_map]
    exact critical_left (dueOf_mem_queue.mpr ⟨hu, hdue⟩) (hfeasible hfeas) hcritical hleft

/-- **The selection of a plan**, from every state and for every list of requests that is taken. -/
theorem schedule_selects {scheduler' : Scheduler} {plan : SchedulePlan}
    (h : scheduler.schedule eligible requests now transport = (scheduler', .ok plan)) :
    scheduler'.Selects requests transport plan.selected ∧
      ∀ requests', requests.Perm requests' →
        scheduler.schedule eligible requests' now transport = (scheduler', .ok plan) := by
  refine ⟨?_, fun requests' hperm => schedule_perm h hperm⟩
  obtain ⟨seen, serial, hchecked, rfl, hplan⟩ := schedule_ok h
  rw [plan_selected hplan]
  exact selects hchecked.valid.ids

/-! ### A small plan -/

/-- A scheduler that has sent nothing yet. -/
def fresh : Scheduler :=
  { connection := 1, limits := .default, history := ∅, now := 0, tick := 0, worldRevision := 0
    policyRevision := 0, serial := 0, tokens := 16384000000000 }

/-- Two entities that may be sent. -/
def pair : Interest.EligibleSet where
  connection := 1
  worldRevision := 1
  policyRevision := 1
  frame := 1
  tick := 5
  entries := .ofList [(⟨1, 1⟩, ⟨⟨1, 1⟩, ⟨1, 1, 1, true⟩, .global, 1, 1⟩),
    (⟨2, 1⟩, ⟨⟨2, 1⟩, ⟨1, 1, 1, true⟩, .global, 1, 1⟩)] compare
  prediction := .notRequested
  candidateVisits := 2
  candidates := 2

/-- A large unit and a small critical one, for which there is not room enough together. -/
def pairRequests : List UnitRequest :=
  [.entity ⟨1, 1⟩ 900 ⟨1, 4, 7, false⟩, .entity ⟨2, 1⟩ 400 ⟨1, 4, 0, true⟩]

/-- The small critical unit is selected. -/
def pairPlan : SchedulePlan :=
  ⟨pair, 1, [.entity ⟨2, 1⟩ 400 ⟨1, 4, 0, true⟩],
    { ScheduleMetrics.zero with
      dueUnits := 2, selectedUnits := 1, selectedWireBytes := 400, deferredUnits := 1 }⟩

theorem schedule_selects_pair :
    (fresh.schedule pair pairRequests 10 ⟨1000, 1200⟩).2 = .ok pairPlan ∧
      (fresh.schedule pair pairRequests 10 ⟨1000, 1200⟩).1.Selects pairRequests
        ⟨1000, 1200⟩ pairPlan.selected := by
  have hplan : (fresh.schedule pair pairRequests 10 ⟨1000, 1200⟩).2 = .ok pairPlan := by
    decide +kernel
  exact ⟨hplan, (schedule_selects (Prod.ext rfl hplan)).1⟩

end Scheduler
end Net.Scheduling
