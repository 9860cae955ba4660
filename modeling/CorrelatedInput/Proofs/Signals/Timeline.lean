import CorrelatedInput.Proofs.Signals.Hub
import CorrelatedInput.Run.Schedule
import CorrelatedInput.Signals.Condition
import Mathlib.Data.List.Basic
/-!
Notifications with the instants at which they are published, and what somebody who waits gets to
see of them. Nothing here knows of queues or of running: a timeline is a list, and a wait sees a
part of it that can be written down.
-/
namespace CorrelatedInput

abbrev Timeline := List (Nat × Notification)

namespace Timeline

def moment (time : Nat) (ns : List Notification) : Timeline := ns.map fun n => (time, n)

def instant (time : Nat) (l : Timeline) : List Notification :=
  (l.filter fun p => p.1 = time).map Prod.snd

@[simp] theorem moment_nil (time : Nat) : moment time [] = [] := rfl

@[simp] theorem instant_nil (time : Nat) : instant time [] = [] := rfl

@[simp] theorem instant_append (time : Nat) (l k : Timeline) :
    (l ++ k).instant time = l.instant time ++ k.instant time := by simp [instant]

@[simp] theorem instant_moment_self (time : Nat) (ns : List Notification) :
    (moment time ns).instant time = ns := by
  simp [instant, moment, List.filter_map, Function.comp_def]

theorem instant_moment_of_ne {t time : Nat} (h : t ≠ time) (ns : List Notification) :
    (moment t ns).instant time = [] := by
  simp [instant, moment, List.filter_map, Function.comp_def, h]

theorem instant_eq_nil {time : Nat} {l : Timeline} (h : ∀ p ∈ l, p.1 ≠ time) :
    l.instant time = [] := by
  simpa [instant, List.filter_eq_nil_iff] using h

/-- The part of a timeline that ends with an instant, or all of it if there is none. -/
def upTo (ending : Option Nat) (l : Timeline) : Timeline :=
  l.filter fun p => ending.all fun e => p.1 ≤ e

/-- Of each of so many instants from `first` on the newest that there is room for: others publish
before `own` is published at the same instant. -/
def instants (room : Nat) (others own : Timeline) (first count : Nat) : Timeline :=
  (List.range' first count).flatMap fun time =>
    moment time (newest room (others.instant time ++ own.instant time))

/-- What a wait gets to see that listens from `start` on for less than `timeout`, while an activity
publishes its `own` and others theirs. What the activity publishes at once comes first, and is seen
even by a wait that has no time; of it, and of everything at a later moment, the newest are kept. -/
def seen (room start timeout : Nat) (others own : Timeline) : Timeline :=
  moment start (newest room (own.instant start)) ++
    (if timeout = 0 then [] else moment start (newest room (others.instant start))) ++
    instants room others own (start + 1) (timeout - 1)

/-- What a wait will see that has not read `unread` yet and reads for the last time at its
deadline. -/
def ahead (room now deadline : Nat) (unread : List Notification) (others own : Timeline) :
    Timeline :=
  moment now (newest room (unread ++ own.instant now)) ++
    (if now < deadline then moment now (newest room (others.instant now)) else []) ++
    instants room others own (now + 1) (deadline - now)

section Instants

variable {room : Nat} {others others' own own' : Timeline}

theorem instants_add (first m n : Nat) :
    instants room others own first (m + n) =
      instants room others own first m ++ instants room others own (first + m) n := by
  simp [instants, ← List.range'_append_1]

theorem instants_congr {first count : Nat}
    (ho : ∀ t, first ≤ t → t < first + count → others.instant t = others'.instant t)
    (hw : ∀ t, first ≤ t → t < first + count → own.instant t = own'.instant t) :
    instants room others own first count = instants room others' own' first count := by
  unfold instants
  apply List.flatMap_congr
  intro t ht
  obtain ⟨low, high⟩ := List.mem_range'_1.mp ht
  rw [ho t low high, hw t low high]

theorem instants_eq_nil {first count : Nat}
    (ho : ∀ t, first ≤ t → t < first + count → others.instant t = [])
    (hw : ∀ t, first ≤ t → t < first + count → own.instant t = []) :
    instants room others own first count = [] := by
  have silent : instants room others own first count = instants room [] [] first count :=
    instants_congr ho hw
  rw [silent]
  simp [instants]

theorem ahead_congr (h : ∀ t, others.instant t = others'.instant t) (now deadline : Nat)
    (unread : List Notification) :
    ahead room now deadline unread others own = ahead room now deadline unread others' own := by
  unfold ahead
  rw [h now, instants_congr (fun t _ _ => h t) (fun _ _ _ => rfl)]

theorem time_of_mem_moment {time : Nat} {ns : List Notification} {p : Nat × Notification}
    (h : p ∈ moment time ns) : p.1 = time := by
  obtain ⟨n, _, rfl⟩ := List.mem_map.mp h
  rfl

theorem moment_sorted (time : Nat) (ns : List Notification) :
    (moment time ns).Pairwise fun p q => p.1 ≤ q.1 := by
  apply List.pairwise_of_forall_mem_list
  intro p hp q hq
  exact Nat.le_of_eq ((time_of_mem_moment hp).trans (time_of_mem_moment hq).symm)

theorem le_of_mem_instants {first count : Nat} {p : Nat × Notification}
    (h : p ∈ instants room others own first count) : first ≤ p.1 := by
  obtain ⟨t, ht, here⟩ := List.mem_flatMap.mp h
  rw [time_of_mem_moment here]
  exact (List.mem_range'_1.mp ht).1

theorem instants_sorted (first count : Nat) :
    (instants room others own first count).Pairwise fun p q => p.1 ≤ q.1 := by
  refine List.pairwise_flatMap.mpr ⟨fun t _ => moment_sorted t _, ?_⟩
  refine (List.pairwise_lt_range').imp ?_
  intro t u before p hp q hq
  rw [time_of_mem_moment hp, time_of_mem_moment hq]
  exact Nat.le_of_lt before

/-- What lies ahead comes in order. -/
theorem ahead_sorted (now deadline : Nat) (unread : List Notification) :
    (ahead room now deadline unread others own).Pairwise fun p q => p.1 ≤ q.1 := by
  have start : moment now (newest room (unread ++ own.instant now)) ++
      (if now < deadline then moment now (newest room (others.instant now)) else []) =
        moment now (newest room (unread ++ own.instant now) ++
          if now < deadline then newest room (others.instant now) else []) := by
    split <;> simp [moment]
  unfold ahead
  rw [start]
  refine List.pairwise_append.mpr ⟨moment_sorted now _, instants_sorted _ _, ?_⟩
  intro p hp q hq
  have later := le_of_mem_instants hq
  rw [time_of_mem_moment hp]
  omega

/-- A wait with more time sees what one with less time sees, and then perhaps more. -/
theorem ahead_extend (start : Nat) {timeout patience : Nat} (le : timeout ≤ patience) :
    ∃ more, ahead room start (start + patience) [] others own =
      ahead room start (start + timeout) [] others own ++ more := by
  rcases Nat.eq_or_lt_of_le le with rfl | lt
  · exact ⟨[], (List.append_nil _).symm⟩
  · have span : start + patience - start = timeout + (patience - timeout) := by omega
    have later : start < start + patience := by omega
    unfold ahead
    rw [if_pos later, span, instants_add]
    cases timeout with
    | zero => exact ⟨_, by simp [instants]; rfl⟩
    | succ timeout =>
      have early : start < start + (timeout + 1) := by omega
      have whole : start + (timeout + 1) - start = timeout + 1 := by omega
      rw [if_pos early, whole]
      exact ⟨_, (List.append_assoc _ _ _).symm⟩

/-! Timelines that are cut off -/

theorem instant_upTo (ending : Option Nat) (l : Timeline) (time : Nat) :
    (l.upTo ending).instant time = if ending.all fun e => time ≤ e then l.instant time else [] := by
  simp only [instant, upTo, List.filter_filter]
  split
  · rename_i within
    congr 1
    apply List.filter_congr
    intro p _
    by_cases here : p.1 = time
    · simp [here, within]
    · simp [here]
  · rename_i beyond
    rw [List.filter_eq_nil_iff.mpr, List.map_nil]
    intro p _ both
    simp only [Bool.and_eq_true, decide_eq_true_eq] at both
    exact beyond (both.1 ▸ both.2)

@[simp] theorem upTo_none (l : Timeline) : l.upTo none = l := by simp [upTo]

theorem instant_upTo_of_le {ending : Option Nat} {time : Nat} (within : ∀ e ∈ ending, time ≤ e)
    (l : Timeline) : (l.upTo ending).instant time = l.instant time := by
  rw [instant_upTo, if_pos]
  simpa [Option.all_eq_true] using within

theorem instant_upTo_of_lt {ending time : Nat} (beyond : ending < time) (l : Timeline) :
    (l.upTo (some ending)).instant time = [] := by
  rw [instant_upTo, if_neg]
  simpa using beyond

theorem instant_upTo_eq_nil {time : Nat} {l : Timeline} (silent : l.instant time = [])
    (ending : Option Nat) : (l.upTo ending).instant time = [] := by
  rw [instant_upTo, silent, ite_self]

theorem upTo_moment_append {ending : Option Nat} {time : Nat} (within : ∀ e ∈ ending, time ≤ e)
    (ns : List Notification) (l : Timeline) :
    (moment time ns ++ l).upTo ending = moment time ns ++ l.upTo ending := by
  rw [upTo, List.filter_append, List.filter_eq_self.mpr, upTo]
  intro p hp
  obtain ⟨n, _, rfl⟩ := List.mem_map.mp hp
  simpa [Option.all_eq_true] using within

/-- The end of a stream makes no difference to a wait whose time is over before. -/
theorem ahead_upTo_of_le {ending : Option Nat} {now deadline : Nat} (forward : now ≤ deadline)
    (late : ∀ e ∈ ending, deadline ≤ e) (unread : List Notification) :
    ahead room now deadline unread (others.upTo ending) (own.upTo ending) =
      ahead room now deadline unread others own := by
  have within (t : Nat) (le : t ≤ deadline) : ∀ e ∈ ending, t ≤ e :=
    fun e he => Nat.le_trans le (late e he)
  have here := within now forward
  have rest : instants room (others.upTo ending) (own.upTo ending) (now + 1) (deadline - now) =
      instants room others own (now + 1) (deadline - now) := by
    apply instants_congr
    · intro t _ _
      exact instant_upTo_of_le (within t (by omega)) others
    · intro t _ _
      exact instant_upTo_of_le (within t (by omega)) own
  simp only [ahead, instant_upTo_of_le here, rest]

/-- A stream that ends in time is seen up to its end. -/
theorem ahead_upTo_of_lt {start lasts deadline : Nat} (early : start + lasts < deadline) :
    ahead room start deadline [] (others.upTo (some (start + lasts)))
        (own.upTo (some (start + lasts))) =
      seen room start (lasts + 1) others own := by
  have here : ∀ e ∈ some (start + lasts), start ≤ e := by simp
  have span : deadline - start = lasts + (deadline - start - lasts) := by omega
  have first : instants room (others.upTo (some (start + lasts)))
      (own.upTo (some (start + lasts))) (start + 1) lasts =
        instants room others own (start + 1) lasts := by
    apply instants_congr
    · intro t _ high
      exact instant_upTo_of_le (by simpa using Nat.le_of_lt_succ (by omega)) others
    · intro t _ high
      exact instant_upTo_of_le (by simpa using Nat.le_of_lt_succ (by omega)) own
  have rest : instants room (others.upTo (some (start + lasts)))
      (own.upTo (some (start + lasts))) (start + 1 + lasts) (deadline - start - lasts) = [] := by
    apply instants_eq_nil
    · intro t low _
      exact instant_upTo_of_lt (by omega) others
    · intro t low _
      exact instant_upTo_of_lt (by omega) own
  have before : start < deadline := by omega
  rw [ahead, span, instants_add, first, rest]
  simp [seen, instant_upTo_of_le here, before]

/-! What a wait sees -/

theorem mem_instant {time : Nat} {l : Timeline} {n : Notification} :
    n ∈ l.instant time ↔ (time, n) ∈ l := by
  simp [instant, and_comm]

theorem mem_of_mem_newest {ns : List Notification} {n : Notification}
    (h : n ∈ newest room ns) : n ∈ ns := List.mem_of_mem_drop h

theorem newest_eq_self {ns : List Notification} (fits : ns.length ≤ room) :
    newest room ns = ns := by
  rw [newest, Nat.sub_eq_zero_of_le fits, List.drop_zero]

theorem mem_of_mem_instants {first count : Nat} {p : Nat × Notification}
    (h : p ∈ instants room others own first count) :
    p.1 < first + count ∧ (p ∈ others ∨ p ∈ own) := by
  obtain ⟨t, ht, here⟩ := List.mem_flatMap.mp h
  obtain ⟨n, kept, rfl⟩ := List.mem_map.mp here
  refine ⟨(List.mem_range'_1.mp ht).2, ?_⟩
  simpa [mem_instant] using mem_of_mem_newest kept

/-- What the activity publishes at once is seen even by a wait that has no time. -/
theorem lt_of_mem_seen {start timeout : Nat} {p : Nat × Notification}
    (quiet : own.instant (start + timeout) = []) (h : p ∈ seen room start timeout others own) :
    p.1 < start + timeout := by
  cases timeout with
  | zero =>
    rw [Nat.add_zero] at quiet
    simp [seen, instants, quiet] at h
  | succ span =>
    rcases List.mem_append.mp h with now | later
    · have time : p.1 = start := by
        rw [if_neg (Nat.succ_ne_zero span)] at now
        exact (List.mem_append.mp now).elim time_of_mem_moment time_of_mem_moment
      omega
    · have inside := (mem_of_mem_instants later).1
      omega

/-- Beside an activity that publishes nothing, the start is a moment like any other. -/
theorem seen_of_silence (start timeout : Nat) :
    seen room start timeout others [] = instants room others [] start timeout := by
  cases timeout with
  | zero => simp [seen, instants]
  | succ span => simp [seen, instants, List.range'_succ]

end Instants

end Timeline

namespace Condition

/-- The first notification, with its instant, at which the condition holds. -/
def satisfaction? (c : Condition) : Timeline → Option (Nat × Notification)
  | [] => none
  | (time, n) :: rest =>
    match c.observe n.kind with
    | (_, true) => some (time, n)
    | (c, false) => c.satisfaction? rest

/-- The first of any kinds is the first whose kind is one of them. -/
theorem satisfaction?_any (kinds : KindSet) (l : Timeline) :
    (any kinds).satisfaction? l = l.find? fun p => kinds.contains p.2.kind := by
  induction l with
  | nil => rfl
  | cons p l ih =>
    obtain ⟨time, n⟩ := p
    cases asked : kinds.contains n.kind <;> simp [satisfaction?, observe, asked, ih]

@[simp] theorem satisfaction?_nil (c : Condition) : c.satisfaction? [] = none := rfl

theorem satisfaction?_moment_append (c : Condition) (time : Nat) (ns : List Notification)
    (rest : Timeline) :
    c.satisfaction? (Timeline.moment time ns ++ rest) =
      match c.feed ns with
      | (_, some n) => some (time, n)
      | (c, none) => c.satisfaction? rest := by
  induction ns generalizing c with
  | nil => rfl
  | cons n ns ih =>
    simp only [Timeline.moment, List.map_cons, List.cons_append, satisfaction?, feed]
    obtain ⟨d, holds⟩ := c.observe n.kind
    cases holds with
    | true => rfl
    | false => exact ih d

end Condition

namespace Schedule

def timeline (s : Schedule) : Timeline := s.flatMap fun m => Timeline.moment m.1 m.2

/-- The instants stand in order, and each stands once. -/
def Ordered (s : Schedule) : Prop := s.Pairwise fun a b => a.1 < b.1

@[simp] theorem timeline_cons (m : Nat × List Notification) (s : Schedule) :
    timeline (m :: s) = Timeline.moment m.1 m.2 ++ timeline s := rfl

theorem timeline_instant_eq_nil {s : Schedule} {time : Nat} (h : ∀ m ∈ s, m.1 ≠ time) :
    s.timeline.instant time = [] := by
  apply Timeline.instant_eq_nil
  simp only [timeline, Timeline.moment, List.mem_flatMap, List.mem_map]
  rintro _ ⟨m, hm, _, _, rfl⟩
  exact h m hm

theorem time_of_mem_insert {s : Schedule} {time : Nat} {n : Notification}
    {m : Nat × List Notification} (hm : m ∈ s.insert time n) : m.1 = time ∨ ∃ k ∈ s, k.1 = m.1 := by
  induction s with
  | nil => simp_all [insert]
  | cons k s ih =>
    simp only [insert] at hm
    split at hm
    · rcases List.mem_cons.mp hm with rfl | hm
      · exact .inr ⟨_, List.mem_cons_self, rfl⟩
      · rcases ih hm with h | ⟨k', hk', h⟩
        · exact .inl h
        · exact .inr ⟨k', List.mem_cons_of_mem _ hk', h⟩
    · split at hm
      · rcases List.mem_cons.mp hm with rfl | hm
        · exact .inr ⟨_, List.mem_cons_self, rfl⟩
        · exact .inr ⟨m, List.mem_cons_of_mem _ hm, rfl⟩
      · rcases List.mem_cons.mp hm with rfl | hm
        · exact .inl rfl
        · exact .inr ⟨m, hm, rfl⟩

theorem insert_ordered {s : Schedule} (h : s.Ordered) (time : Nat) (n : Notification) :
    (s.insert time n).Ordered := by
  induction s with
  | nil => simp [insert, Ordered]
  | cons k s ih =>
    obtain ⟨first, rest⟩ := List.pairwise_cons.mp h
    simp only [insert]
    split
    · rename_i before
      refine List.pairwise_cons.mpr ⟨?_, ih rest⟩
      intro m hm
      rcases time_of_mem_insert hm with h | ⟨k', hk', h⟩
      · exact h ▸ before
      · exact h ▸ first k' hk'
    · split
      · exact List.pairwise_cons.mpr ⟨first, rest⟩
      · rename_i late other
        refine List.pairwise_cons.mpr ⟨?_, h⟩
        intro m hm
        have before : time < k.1 := by omega
        rcases List.mem_cons.mp hm with rfl | hm
        · exact before
        · exact Nat.lt_trans before (first m hm)

theorem insert_instant {s : Schedule} (h : s.Ordered) (time : Nat) (n : Notification) (t : Nat) :
    (timeline (s.insert time n)).instant t =
      (timeline s).instant t ++ (Timeline.moment time [n]).instant t := by
  induction s with
  | nil => simp [insert, timeline]
  | cons k s ih =>
    obtain ⟨first, rest⟩ := List.pairwise_cons.mp h
    simp only [insert]
    split
    · simp [ih rest]
    · -- everything behind `k` is later than the new notification
      have later : t = time → (timeline s).instant t = [] := by
        intro here
        apply timeline_instant_eq_nil
        intro m hm
        have := first m hm
        omega
      split
      · rename_i same
        by_cases here : t = time
        · have none := later here
          subst here
          simp [none, same]
        · have other : time ≠ t := fun e => here e.symm
          simp [same, Timeline.instant_moment_of_ne other]
      · by_cases here : t = time
        · have other : k.1 ≠ time := by assumption
          have none := later here
          subst here
          simp [none, Timeline.instant_moment_of_ne other]
        · have other : time ≠ t := fun e => here e.symm
          simp [Timeline.instant_moment_of_ne other]

def due (start : Nat) (arrivals : List (Nat × Notification)) : Timeline :=
  arrivals.map fun a => (start + a.1, a.2)

theorem foldl_insert {start : Nat} (arrivals : List (Nat × Notification)) {s : Schedule}
    (ordered : s.Ordered) (after : ∀ m ∈ s, start ≤ m.1) :
    let all := arrivals.foldl (fun s (delay, n) => s.insert (start + delay) n) s
    all.Ordered ∧ (∀ m ∈ all, start ≤ m.1) ∧
      ∀ t, (timeline all).instant t = (timeline s).instant t ++ (due start arrivals).instant t := by
  induction arrivals generalizing s with
  | nil =>
    refine ⟨ordered, after, ?_⟩
    intro t
    simp [due]
  | cons a arrivals ih =>
    obtain ⟨delay, n⟩ := a
    have after' : ∀ m ∈ s.insert (start + delay) n, start ≤ m.1 := by
      intro m hm
      rcases time_of_mem_insert hm with h | ⟨k, hk, h⟩
      · omega
      · exact h ▸ after k hk
    obtain ⟨h₁, h₂, h₃⟩ := ih (insert_ordered ordered (start + delay) n) after'
    refine ⟨h₁, h₂, ?_⟩
    intro t
    have split : due start ((delay, n) :: arrivals) =
        Timeline.moment (start + delay) [n] ++ due start arrivals := rfl
    rw [split, Timeline.instant_append, ← List.append_assoc, ← insert_instant ordered]
    exact h₃ t

theorem ofDelays_ordered (start : Nat) (arrivals : List (Nat × Notification)) :
    (ofDelays start arrivals).Ordered :=
  (foldl_insert arrivals .nil (by simp)).1

theorem ofDelays_after (start : Nat) (arrivals : List (Nat × Notification)) :
    ∀ m ∈ ofDelays start arrivals, start ≤ m.1 :=
  (foldl_insert arrivals .nil (by simp)).2.1

theorem ofDelays_instant (start : Nat) (arrivals : List (Nat × Notification)) (t : Nat) :
    (timeline (ofDelays start arrivals)).instant t = (due start arrivals).instant t := by
  have h := (@foldl_insert start arrivals [] .nil (by simp)).2.2 t
  simpa [ofDelays, timeline] using h

end Schedule

end CorrelatedInput
