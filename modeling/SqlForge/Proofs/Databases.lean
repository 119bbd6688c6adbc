import SqlForge.Database.Recorder
import SqlForge.Proofs.Sessions

/-!
# Databases and their logs

A database counts the texts that its runner has accepted. Whichever of its
methods is called, with a runner that keeps a log each step makes one of five
moves, and only one of them touches the count and the log: it adds one to the
first and one entry to the second.
-/

namespace SqlForge

namespace Recorder

theorem run_eq (sql : Text) (r : Recorder) :
    (∃ e, run sql r = (.error e, r)) ∨
      run sql r = (.ok (r.log.length + 1), { r with log := r.log ++ [sql] }) := by
  unfold run
  split
  · exact .inl ⟨_, rfl⟩
  · exact .inr rfl

end Recorder

namespace Database

/-! ## Steps -/

theorem call_eq_run {σ ε α : Type} (runner : Runner σ ε α) (db : Database σ) (c : Command) :
    db.call runner c = db.run runner c := by
  cases c with
  | task task table => cases task <;> rfl
  | _ => rfl

inductive Step where
  | call (c : Command)
  | execute (sql : Text)
  /-- From now on the recorder refuses texts that begin like this. -/
  | bar (start : Option Text)
  | compile (c : Command)

inductive Outcome where
  | returned (answer : Except (RunError Refusal) Nat)
  | barred
  | compiled (answer : Except CommandError Statement)

def Outcome.succeeds : Outcome → Bool
  | returned (.ok _) => true
  | _ => false

def step (db : Database Recorder) : Step → Outcome × Database Recorder
  | .call c =>
    let (answer, db) := db.call Recorder.run c
    (.returned answer, db)
  | .execute sql =>
    let (answer, db) := db.execute Recorder.run sql
    (.returned answer, db)
  | .bar start => (.barred, { db with state := { db.state with barred := start } })
  | .compile c =>
    let (answer, db) := db.compile c
    (.compiled answer, db)

def steps (db : Database Recorder) : List Step → List Outcome × Database Recorder
  | [] => ([], db)
  | first :: rest =>
    let (o, db) := db.step first
    let (os, db) := db.steps rest
    (o :: os, db)

/-- The text that a step hands to the runner: what is executed, or the statement of a command as a
new dialect compiles it. -/
def Step.text? (d : Dialect) : Step → Option Text
  | .call c => (d.compile 0 c).1.toOption.map Statement.sql
  | .execute sql => some sql
  | .bar _ | .compile _ => none

/-- How many statements a step has begun if it hands a text to the runner. -/
def Step.begun : Step → Nat
  | .call _ => 1
  | .execute _ | .bar _ | .compile _ => 0

/-! ## Moves -/

inductive Move (d : Dialect) (db : Database Recorder) : Step → Outcome → Database Recorder → Prop
  | accepted {step : Step} {sql : Text} (h : step.text? d = some sql) :
      Move d db step (.returned (.ok (db.state.log.length + 1)))
        { db with
          begun := db.begun + step.begun
          executed := db.executed + 1
          state := { db.state with log := db.state.log ++ [sql] } }
  | refused {step : Step} {sql : Text} {e : Refusal} (h : step.text? d = some sql)
      (he : Recorder.run sql db.state = (.error e, db.state)) :
      Move d db step (.returned (.error (.runner e))) { db with begun := db.begun + step.begun }
  | failed {c : Command} {e : CommandError} (h : (d.compile 0 c).1 = .error e) :
      Move d db (.call c) (.returned (.error (.command e))) { db with begun := db.begun + e.begun }
  | bar (start : Option Text) :
      Move d db (.bar start) .barred { db with state := { db.state with barred := start } }
  | compile (c : Command) :
      Move d db (.compile c) (.compiled (d.compile db.begun c).1)
        { db with begun := (d.compile db.begun c).2 }

variable {d : Dialect} {db db' : Database Recorder} {step : Step} {o : Outcome}

theorem move_of_text {sql : Text} (h : step.text? d = some sql) :
    let ran := runText Recorder.run { db with begun := db.begun + step.begun } sql
    Move d db step (.returned ran.1) ran.2 := by
  dsimp only
  rcases Recorder.run_eq sql db.state with ⟨e, he⟩ | hr
  · rw [runText, he]
    exact .refused h he
  · rw [runText, hr]
    exact .accepted h

theorem step_move (db : Database Recorder) : ∀ step : Step,
    Move db.dialect db step (db.step step).1 (db.step step).2
  | .call c => by
    cases ha : (db.dialect.compile 0 c).1 with
    | error e =>
      rw [Database.step, call_eq_run, run, compile, db.dialect.compile_of_error db.begun ha]
      exact .failed ha
    | ok st =>
      obtain ⟨st', hst', hcontent⟩ := db.dialect.compile_of_ok db.begun ha
      have hsql : st'.sql = st.sql := congrArg Prod.fst hcontent
      have htext : (Step.call c).text? db.dialect = some st'.sql := by
        rw [Step.text?, ha, hsql]
        rfl
      rw [Database.step, call_eq_run, run, compile, hst']
      exact move_of_text htext
  | .execute sql => move_of_text rfl
  | .bar start => .bar start
  | .compile c => .compile c

/-- A move keeps the count of successes and the log in step. -/
theorem Move.kept (h : Move d db step o db') (hlog : db.executed = db.state.log.length) :
    db'.dialect = db.dialect ∧ db'.executed = db.executed + [o].countP Outcome.succeeds ∧
      db'.executed = db'.state.log.length ∧ db.state.log <+: db'.state.log := by
  cases h with
  | accepted =>
    refine ⟨rfl, rfl, ?_, List.prefix_append _ _⟩
    rw [List.length_append, ← hlog]
    rfl
  | refused | failed | bar | compile => exact ⟨rfl, rfl, hlog, List.prefix_refl _⟩

theorem steps_kept : ∀ (l : List Step) {db : Database Recorder},
    db.executed = db.state.log.length →
    (db.steps l).2.dialect = db.dialect ∧
      (db.steps l).2.executed = db.executed + (db.steps l).1.countP Outcome.succeeds ∧
      (db.steps l).2.executed = (db.steps l).2.state.log.length ∧
      db.state.log <+: (db.steps l).2.state.log
  | [], db, hlog => ⟨rfl, rfl, hlog, List.prefix_refl _⟩
  | first :: rest, db, hlog => by
    obtain ⟨hd, he, hl, hp⟩ := (step_move db first).kept hlog
    obtain ⟨hd', he', hl', hp'⟩ := steps_kept rest hl
    refine ⟨hd'.trans hd, ?_, hl', hp.trans hp'⟩
    rw [he, Nat.add_assoc, ← List.countP_append] at he'
    exact he'

/-- **The count, the log and the outcomes agree.** After any steps of a new database, as many texts
have been run as outcomes report success and as the log is long. The log only grows: a success adds
the text of its step and returns the new length; an error of the command does not reach the runner,
and an error of the runner comes back as it is; neither moves the count or the log. A command that
the runner refuses has used up its number, while a text that is executed never uses one. -/
theorem steps_recorded (d : Dialect) (barred : Option Text) (before : List Step) (step : Step) :
    let ran := (start d (Recorder.mk [] barred)).steps before
    let db := ran.2
    let (o, db') := db.step step
    (db.executed = ran.1.countP Outcome.succeeds ∧ db.executed = db.state.log.length) ∧
      db.state.log <+: db'.state.log ∧
      (o.succeeds = false → db'.state.log = db.state.log ∧ db'.executed = db.executed) ∧
      (∀ n, o = .returned (.ok n) → ∃ sql, step.text? d = some sql ∧
        db'.state.log = db.state.log ++ [sql] ∧ n = db'.state.log.length) ∧
      (∀ e, o = .returned (.error (.command e)) → db'.state = db.state ∧
        ∃ c, step = .call c ∧ (d.compile 0 c).1 = .error e) ∧
      (∀ e, o = .returned (.error (.runner e)) → db'.state = db.state ∧
        (∃ sql, step.text? d = some sql ∧ Recorder.run sql db.state = (.error e, db.state)) ∧
        ∀ c, step = .call c → db'.begun = db.begun + 1) ∧
      ∀ sql, step = .execute sql → db'.begun = db.begun := by
  intro ran db
  obtain ⟨hd, he, hl, -⟩ : db.dialect = d ∧ db.executed = 0 + ran.1.countP Outcome.succeeds ∧
      db.executed = db.state.log.length ∧ [] <+: db.state.log := steps_kept before rfl
  have hmove := step_move db step
  rw [hd] at hmove
  clear_value db ran
  generalize db.step step = r at hmove ⊢
  obtain ⟨o, db'⟩ := r
  dsimp only at hmove ⊢
  obtain ⟨-, -, -, hp⟩ := hmove.kept hl
  refine ⟨⟨he.trans (Nat.zero_add _), hl⟩, hp, ?_, ?_, ?_, ?_, ?_⟩
  · intro ho
    cases hmove with
    | accepted => cases ho
    | refused | failed | bar | compile => exact ⟨rfl, rfl⟩
  · rintro n rfl
    cases hmove with
    | @accepted _ sql h =>
      refine ⟨sql, h, rfl, ?_⟩
      rw [List.length_append]
      rfl
  · rintro e rfl
    cases hmove with
    | @failed c _ h => exact ⟨rfl, c, rfl, h⟩
  · rintro e rfl
    cases hmove with
    | @refused _ sql _ h hrun =>
      refine ⟨rfl, ⟨sql, h, hrun⟩, ?_⟩
      rintro c rfl
      rfl
  · rintro sql rfl
    cases hmove with
    | accepted => rfl
    | refused => rfl

-- The refused `DROP TABLE` has used up a number, and the two steps after it have not.
example : ((start (.ofFlavor .mysql) .empty).steps [.call .showTables, .bar (some "DROP".toList),
      .call (.task .drop "t".toList), .execute "DROP".toList, .call (.task .drop []),
      .compile .showTables]).1 =
    [.returned (.ok 1), .barred, .returned (.error (.runner ⟨"DROP".toList⟩)),
      .returned (.error (.runner ⟨"DROP".toList⟩)), .returned (.error (.command .noTable)),
      .compiled (.ok ⟨3, "SHOW TABLES".toList, .empty⟩)] := rfl

end Database

end SqlForge
