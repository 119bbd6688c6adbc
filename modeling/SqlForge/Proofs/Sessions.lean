import SqlForge.Session
import SqlForge.Proofs.Conditions

/-!
# What a session remembers

A member of a session answers a command as a new dialect does, whatever came
before; what the members share shows in the numbers of their statements only.
Copies refer to one counter, and no step lets any of them change to another, so
each of them sees what all have begun. An error tells whether a statement had
been begun when it was found, so the outcomes of a run determine the count.
-/

namespace SqlForge

/-! ## Errors and the statements that they leave begun -/

/-- How many statements a command begins that ends in the error. -/
def CommandError.begun : CommandError → Nat
  | connectiveAsColumn _ | noConditions _ => 1
  | table _ | noValues _ | noTable => 0

/-- An error is found before a statement is begun, or after, as it tells itself. -/
def Plan.Timely : Plan → Prop
  | refused e => e.begun = 0
  | abandoned e => e.begun = 1
  | ready _ => True

namespace Dialect

variable (d : Dialect)

theorem begun_of_condition_error {c : Condition} {e : CommandError} (h : d.condition c = .error e) :
    e.begun = 1 := by
  unfold condition at h
  dsimp only at h
  split at h
  · cases h
    rfl
  · split at h <;> cases h

theorem begun_of_conditions_error {cs : Conditions Condition} {e : CommandError}
    (h : d.conditions cs = .error e) : e.begun = 1 := by
  unfold conditions at h
  cases ht : cs.traverse d.condition with
  | ok written =>
    rw [ht] at h
    cases h
  | error e' =>
    rw [ht] at h
    cases h
    exact Conditions.traverse_error (fun c e => d.begun_of_condition_error) ht

theorem timely_withTable (table : Text) {next : Text → Plan} (h : ∀ name, (next name).Timely) :
    (d.withTable table next).Timely := by
  unfold withTable
  split
  · exact h _
  · rfl

theorem timely_withConditions (cs : Conditions Condition) {next : List Template → Plan}
    (h : ∀ ts, (next ts).Timely) : (d.withConditions cs next).Timely := by
  unfold withConditions
  split
  · exact h _
  · rename_i e he
    exact d.begun_of_conditions_error he

theorem timely_withRestriction (write : Write) (cs : Conditions Condition)
    (next : List Template → Template) : (d.withRestriction write cs next).Timely := by
  refine d.timely_withConditions cs fun ts => ?_
  split
  · rfl
  · trivial

theorem timely_plan : ∀ c : Command, (d.plan c).Timely
  | .select q => by
    rw [plan]
    split
    · rfl
    · exact d.timely_withConditions q.conditions fun ts => trivial
  | .insert table values => by
    refine d.timely_withTable table fun name => ?_
    split
    · rfl
    · trivial
  | .update table values cs limit => by
    refine d.timely_withTable table fun name => ?_
    split
    · rfl
    · exact d.timely_withRestriction .update cs _
  | .delete table cs limit =>
    d.timely_withTable table fun _ => d.timely_withRestriction .delete cs _
  | .create table columns options => by
    refine d.timely_withTable table fun name => ?_
    split
    · rfl
    · trivial
  | .task _ table => d.timely_withTable table fun _ => trivial
  | .showTables => trivial

end Dialect

/-! ## Answers -/

/-- What a statement says, apart from its number. -/
def Statement.content (st : Statement) : Text × Bindings := (st.sql, st.bindings)

def begunFor : Except CommandError Statement → Nat
  | .ok _ => 1
  | .error e => e.begun

namespace Dialect

variable (d : Dialect)

theorem content_compile (n m : Nat) (c : Command) :
    (d.compile n c).1.map Statement.content = (d.compile m c).1.map Statement.content := by
  unfold compile
  cases d.plan c <;> rfl

theorem begun_compile (n : Nat) (c : Command) : (d.compile n c).2 = n + begunFor (d.compile n c).1 := by
  have ht := d.timely_plan c
  unfold compile
  cases hp : d.plan c with
  | refused e =>
    rw [hp] at ht
    exact congrArg (n + ·) ht.symm
  | abandoned e =>
    rw [hp] at ht
    exact congrArg (n + ·) ht.symm
  | ready t => rfl

theorem compile_of_error {m : Nat} {c : Command} {e : CommandError} (n : Nat)
    (h : (d.compile m c).1 = .error e) : d.compile n c = (.error e, n + e.begun) := by
  have hc := d.content_compile n m c
  have hb := d.begun_compile n c
  rw [h] at hc
  cases ha : (d.compile n c).1 with
  | ok st =>
    rw [ha] at hc
    cases hc
  | error e' =>
    rw [ha] at hc hb
    cases hc
    exact Prod.ext ha hb

theorem compile_of_ok {m : Nat} {c : Command} {st : Statement} (n : Nat)
    (h : (d.compile m c).1 = .ok st) :
    ∃ st', d.compile n c = (.ok st', n + 1) ∧ st'.content = st.content := by
  have hc := d.content_compile n m c
  have hb := d.begun_compile n c
  rw [h] at hc
  cases ha : (d.compile n c).1 with
  | error e =>
    rw [ha] at hc
    cases hc
  | ok st' =>
    rw [ha] at hc hb
    exact ⟨st', Prod.ext ha hb, Except.ok.inj hc⟩

theorem number_compile {n : Nat} {c : Command} {st : Statement} (h : (d.compile n c).1 = .ok st) :
    st.number = n + 1 := by
  unfold compile at h
  split at h <;> cases h
  rfl

end Dialect

/-! ## Steps -/

namespace Session

inductive Step where
  | copy (member : Nat)
  | compile (member : Nat) (c : Command)

inductive Outcome where
  | copied (members : Nat)
  | answered (answer : Except CommandError Statement)

namespace Outcome

def begun : Outcome → Nat
  | copied _ => 0
  | answered answer => begunFor answer

def number? : Outcome → Option Nat
  | answered (.ok st) => some st.number
  | _ => none

end Outcome

/-- How many statements have been begun for the outcomes. -/
def begunIn : List Outcome → Nat
  | [] => 0
  | o :: os => o.begun + begunIn os

/-- There is no outcome if there is no such member. -/
def step? (s : Session) : Step → Option (Outcome × Session)
  | .copy member => (s.copy? member).map fun (n, s) => (.copied n, s)
  | .compile member c => (s.compile? member c).map fun (answer, s) => (.answered answer, s)

def run? (s : Session) : List Step → Option (List Outcome × Session)
  | [] => some ([], s)
  | step :: steps =>
    (s.step? step).bind fun (o, s) => (s.run? steps).map fun (os, s) => (o :: os, s)

/-- Each step names a member that is there by then, if there are `n` at first. -/
def Addressed : Nat → List Step → Prop
  | _, [] => True
  | n, .copy member :: steps => member < n ∧ Addressed (n + 1) steps
  | n, .compile member _ :: steps => member < n ∧ Addressed n steps

/-- Each member finds that `n` statements have been begun. -/
def Counts (s : Session) (n : Nat) : Prop := ∀ member < s.members.length, s.begun? member = some n

/-- The members are copies of one that refers to the counter at `r`, and `n` statements have been
begun with it. -/
structure Family (s : Session) (d : Dialect) (r n : Nat) : Prop where
  members : ∀ m ∈ s.members, m = ⟨d, r⟩
  count : s.counters[r]? = some n

/-- The outcomes come of a counter that stands at `n` before them and at `n'` after them. -/
structure Counted (n : Nat) (os : List Outcome) (n' : Nat) : Prop where
  begun : n' = n + begunIn os
  ascending : (os.filterMap Outcome.number?).Pairwise (· < ·)
  between : ∀ k ∈ os.filterMap Outcome.number?, n < k ∧ k ≤ n'

variable {d : Dialect} {r n : Nat} {s s' : Session}

theorem family_start (d : Dialect) : (start d).Family d 0 0 :=
  ⟨fun _ hm => List.mem_singleton.mp hm, rfl⟩

theorem exists_copy? {member : Nat} (hm : member < s.members.length) :
    ∃ s', s.copy? member = some (s.members.length + 1, s') ∧
      s'.members.length = s.members.length + 1 := by
  refine ⟨{ s with members := s.members ++ [s.members[member]] }, ?_, List.length_append⟩
  rw [copy?, List.getElem?_eq_getElem hm]
  rfl

namespace Family

theorem begun? (h : s.Family d r n) {member : Nat} (hm : member < s.members.length) :
    s.begun? member = some n := by
  rw [Session.begun?, List.getElem?_eq_getElem hm, Option.bind_some,
    h.members _ (List.getElem_mem hm)]
  exact h.count

theorem counts (h : s.Family d r n) : s.Counts n := fun _ hm => h.begun? hm

theorem exists_compile? (h : s.Family d r n) {member : Nat} (hm : member < s.members.length)
    (c : Command) : ∃ s', s.compile? member c = some ((d.compile n c).1, s') ∧
      s'.members.length = s.members.length := by
  refine ⟨{ s with counters := s.counters.set r (d.compile n c).2 }, ?_, rfl⟩
  rw [compile?, h.begun? hm, List.getElem?_eq_getElem hm, Option.bind_some, Option.map_some,
    h.members _ (List.getElem_mem hm)]

theorem of_copy? (h : s.Family d r n) {member k : Nat} (hc : s.copy? member = some (k, s')) :
    s'.Family d r n := by
  obtain ⟨m, hm, hc⟩ := Option.map_eq_some_iff.mp hc
  cases hc
  refine ⟨fun m' hm' => ?_, h.count⟩
  rcases List.mem_append.mp hm' with hm' | hm'
  · exact h.members m' hm'
  · exact List.mem_singleton.mp hm' ▸ h.members m (List.mem_of_getElem? hm)

/-- A member writes to the counter that all of them read. -/
theorem of_compile? (h : s.Family d r n) {member : Nat} {c : Command}
    {answer : Except CommandError Statement} (hc : s.compile? member c = some (answer, s')) :
    answer = (d.compile n c).1 ∧ s'.Family d r (n + begunFor answer) := by
  obtain ⟨m, hm, hc⟩ := Option.bind_eq_some_iff.mp hc
  obtain ⟨begun, hb, hc⟩ := Option.map_eq_some_iff.mp hc
  obtain rfl := h.members m (List.mem_of_getElem? hm)
  rw [h.begun? (List.getElem?_eq_some_iff.mp hm).1] at hb
  cases hb
  cases hc
  have hset := List.getElem?_set_self (a := (d.compile n c).2) (List.getElem?_eq_some_iff.mp h.count).1
  exact ⟨rfl, h.members, hset.trans (congrArg some (d.begun_compile n c))⟩

theorem of_step? (h : s.Family d r n) {step : Step} {o : Outcome} (hstep : s.step? step = some (o, s')) :
    s'.Family d r (n + o.begun) ∧ ∀ k ∈ o.number?, k = n + 1 ∧ k = n + o.begun := by
  cases step with
  | copy member =>
    obtain ⟨⟨k, s₁⟩, hc, e⟩ := Option.map_eq_some_iff.mp hstep
    cases e
    exact ⟨h.of_copy? hc, fun k hk => by cases hk⟩
  | compile member c =>
    obtain ⟨⟨answer, s₁⟩, hc, e⟩ := Option.map_eq_some_iff.mp hstep
    cases e
    obtain ⟨rfl, h'⟩ := h.of_compile? hc
    refine ⟨h', fun k hk => ?_⟩
    cases ha : (d.compile n c).1 with
    | error e =>
      rw [ha] at hk
      cases hk
    | ok st =>
      rw [ha] at hk
      cases hk
      exact ⟨d.number_compile ha, d.number_compile ha⟩

end Family

theorem run?_cons {step : Step} {steps : List Step} {os : List Outcome}
    (h : s.run? (step :: steps) = some (os, s')) :
    ∃ o os' s₁, s.step? step = some (o, s₁) ∧ s₁.run? steps = some (os', s') ∧ os = o :: os' := by
  rw [run?, Option.bind_eq_some_iff] at h
  obtain ⟨⟨o, s₁⟩, hstep, h⟩ := h
  obtain ⟨⟨os', s₂⟩, hrun, h⟩ := Option.map_eq_some_iff.mp h
  cases h
  exact ⟨o, os', s₁, hstep, hrun, rfl⟩

/-- A run keeps the members together, and the numbers of its statements go up. -/
theorem run?_counted : ∀ {steps : List Step} {s : Session} {n : Nat} {os : List Outcome},
    s.Family d r n → s.run? steps = some (os, s') →
    s'.Family d r (n + begunIn os) ∧ Counted n os (n + begunIn os)
  | [], s, n, os, hf, h => by
    cases h
    exact ⟨hf, rfl, .nil, fun k hk => by cases hk⟩
  | step :: steps, s, n, os, hf, h => by
    obtain ⟨o, os', s₁, hstep, hrun, rfl⟩ := run?_cons h
    obtain ⟨hf₁, hnumber⟩ := hf.of_step? hstep
    obtain ⟨hf', hcount⟩ := run?_counted hf₁ hrun
    rw [Nat.add_assoc] at hf' hcount
    refine ⟨hf', rfl, ?_, ?_⟩
    · cases hn : o.number? with
      | none =>
        rw [List.filterMap_cons_none hn]
        exact hcount.ascending
      | some k =>
        -- the first number is what its step leaves begun, and the others lie above that
        rw [List.filterMap_cons_some hn, List.pairwise_cons]
        refine ⟨fun k' hk' => ?_, hcount.ascending⟩
        have hfirst := hnumber k hn
        have hlater := hcount.between k' hk'
        omega
    · intro k hk
      obtain ⟨o', ho', hn⟩ := List.mem_filterMap.mp hk
      rcases List.mem_cons.mp ho' with rfl | ho'
      · have hfirst := hnumber k hn
        rw [begunIn]
        omega
      · have hlater := hcount.between k (List.mem_filterMap.mpr ⟨o', ho', hn⟩)
        rw [begunIn]
        omega

theorem run?_of_step {step : Step} {steps : List Step} {o : Outcome} {os : List Outcome}
    {s₁ : Session} (hstep : s.step? step = some (o, s₁)) (hrun : s₁.run? steps = some (os, s')) :
    s.run? (step :: steps) = some (o :: os, s') := by
  rw [run?, hstep, Option.bind_some]
  dsimp only
  rw [hrun]
  rfl

theorem exists_run? : ∀ {steps : List Step} {s : Session} {n : Nat}, s.Family d r n →
    Addressed s.members.length steps → ∃ os s', s.run? steps = some (os, s')
  | [], s, _, _, _ => ⟨[], s, rfl⟩
  | .copy member :: steps, s, n, hf, ⟨hm, h⟩ => by
    obtain ⟨s₁, hc, hl⟩ := exists_copy? hm
    have hstep : s.step? (.copy member) = some (.copied (s.members.length + 1), s₁) := by
      rw [step?, hc]
      rfl
    obtain ⟨os, s', hrun⟩ := exists_run? (hf.of_copy? hc) (hl ▸ h)
    exact ⟨_, s', run?_of_step hstep hrun⟩
  | .compile member c :: steps, s, n, hf, ⟨hm, h⟩ => by
    obtain ⟨s₁, hc, hl⟩ := hf.exists_compile? hm c
    have hstep : s.step? (.compile member c) = some (.answered (d.compile n c).1, s₁) := by
      rw [step?, hc]
      rfl
    obtain ⟨os, s', hrun⟩ := exists_run? (hf.of_compile? hc).2 (hl ▸ h)
    exact ⟨_, s', run?_of_step hstep hrun⟩

theorem run?_split {step : Step} {post : List Step} : ∀ (pre : List Step) {s : Session}
    {outcomes : List Outcome}, s.run? (pre ++ step :: post) = some (outcomes, s') →
    ∃ os s₁ o s₂ os', s.run? pre = some (os, s₁) ∧ s₁.step? step = some (o, s₂) ∧
      s₂.run? post = some (os', s') ∧ outcomes = os ++ o :: os'
  | [], s, outcomes, h => by
    obtain ⟨o, os', s₁, hstep, hrun, rfl⟩ := run?_cons h
    exact ⟨[], s, o, s₁, os', rfl, hstep, hrun, rfl⟩
  | first :: pre, s, outcomes, h => by
    obtain ⟨o₀, outcomes', s₀, hfirst, hrest, rfl⟩ := run?_cons h
    obtain ⟨os, s₁, o, s₂, os', hpre, hstep, hpost, rfl⟩ := run?_split pre hrest
    exact ⟨o₀ :: os, s₁, o, s₂, os', run?_of_step hfirst hpre, hstep, hpost, rfl⟩

/-- **Members do not disturb each other.** In a session of copies of one dialect, each answer is that
of the dialect at its first command, whichever member is asked and whatever came before. All members
see the same count of what has been begun. The numbers of the statements go up; each is one more than
the count before, and an error leaves as much begun as it tells. -/
theorem run_isolated (d : Dialect) {steps : List Step} (h : Addressed 1 steps) :
    ∃ outcomes s, (start d).run? steps = some (outcomes, s) ∧
      (outcomes.filterMap Outcome.number?).Pairwise (· < ·) ∧
      ∀ pre step post, steps = pre ++ step :: post →
        ∃ os s₁ o s₂ os', (start d).run? pre = some (os, s₁) ∧ s₁.step? step = some (o, s₂) ∧
          s₂.run? post = some (os', s) ∧ outcomes = os ++ o :: os' ∧
          s₁.Counts (begunIn os) ∧
          (∀ member, step = .copy member → s₂.Counts (begunIn os)) ∧
          ∀ member c, step = .compile member c → ∃ answer, o = .answered answer ∧
            answer.map Statement.content = (d.compile 0 c).1.map Statement.content ∧
            (∀ st, answer = .ok st → st.number = begunIn os + 1 ∧ s₂.Counts (begunIn os + 1)) ∧
            ∀ e, answer = .error e → s₂.Counts (begunIn os + e.begun) := by
  obtain ⟨outcomes, s, hrun⟩ := exists_run? (family_start d) h
  refine ⟨outcomes, s, hrun, (run?_counted (family_start d) hrun).2.ascending, ?_⟩
  rintro pre step post rfl
  obtain ⟨os, s₁, o, s₂, os', hpre, hstep, hpost, rfl⟩ := run?_split pre hrun
  have hf := (run?_counted (family_start d) hpre).1
  rw [Nat.zero_add] at hf
  refine ⟨os, s₁, o, s₂, os', hpre, hstep, hpost, rfl, hf.counts, ?_, ?_⟩
  · rintro member rfl
    obtain ⟨⟨k, s₂⟩, hc, e⟩ := Option.map_eq_some_iff.mp hstep
    cases e
    exact (hf.of_copy? hc).counts
  · rintro member c rfl
    obtain ⟨⟨answer, s₂⟩, hc, e⟩ := Option.map_eq_some_iff.mp hstep
    cases e
    obtain ⟨rfl, hf'⟩ := hf.of_compile? hc
    refine ⟨_, rfl, d.content_compile (begunIn os) 0 c, fun st hst => ?_, fun e he => ?_⟩
    · rw [hst] at hf'
      exact ⟨d.number_compile hst, hf'.counts⟩
    · rw [he] at hf'
      exact hf'.counts

/-- A copy and a copy of the copy take turns, and two of four commands fail. -/
theorem run_isolated_copies :
    let steps : List Step := [.copy 0, .compile 1 .showTables, .copy 1,
      .compile 2 (.delete "t".toList .nil none), .compile 0 (.insert "t".toList []),
      .compile 2 (.task .drop "t".toList)]
    Addressed 1 steps ∧ ∃ outcomes s, (start (.ofFlavor .sqlite)).run? steps = some (outcomes, s) ∧
      (outcomes.filterMap Outcome.number?).Pairwise (· < ·) ∧
      outcomes.filterMap Outcome.number? = [1, 3] ∧ s.Counts 3 := by
  intro steps
  have h : Addressed 1 steps := by simp [steps, Addressed]
  obtain ⟨outcomes, s, hrun, hascending, hsteps⟩ := run_isolated (.ofFlavor .sqlite) h
  have hrun' : (start (.ofFlavor .sqlite)).run? steps = some (_, _) := rfl
  obtain ⟨rfl, rfl⟩ := Prod.mk.inj (Option.some.inj (hrun.symm.trans hrun'))
  refine ⟨h, _, _, hrun, hascending, rfl, ?_⟩
  unfold Counts
  decide

end Session

end SqlForge
