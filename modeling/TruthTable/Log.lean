import TruthTable.Message

/-!
# The log

A log tells in which order things happened and how often, which no result can tell. It is therefore
written by the steps themselves while they run: `LogM` is the monad of computations that write
messages, and `log` is its one operation. What a step has written stays written when a later step
breaks off, so the log of a computation that may fail is kept below its failures, in
`ExceptT ε LogM`.

The laws below say what each building block of such a computation adds to a given log. They are all
that later arguments use of the monad.
-/

namespace TruthTable

/-- Computations that write messages. -/
abbrev LogM := StateM (Array Message)

/-- Writes a message at the end of the log. -/
def log (m : Message) : LogM Unit :=
  modify (·.push m)

/-! ### What a computation adds to a log -/

namespace LogM

variable {ε α β : Type}

/-- A value adds nothing. -/
theorem run_pure (a : α) (messages : Array Message) :
    (pure a : ExceptT ε LogM α).run.run messages = (.ok a, messages) :=
  rfl

/-- A result that is already there adds nothing. -/
theorem run_lift (x : Except ε α) (messages : Array Message) :
    (liftM x : ExceptT ε LogM α).run.run messages = (x, messages) :=
  rfl

/-- A computation that can not break off adds what it writes. -/
theorem run_liftM (x : LogM α) (messages : Array Message) :
    (liftM x : ExceptT ε LogM α).run.run messages =
      (.ok (x.run messages).1, (x.run messages).2) :=
  rfl

/-- Writing a message adds it at the end. -/
theorem run_log (m : Message) (messages : Array Message) :
    (liftM (log m) : ExceptT ε LogM Unit).run.run messages = (.ok (), messages.push m) :=
  rfl

/-- A step that follows starts from the log of the step before, and does not start at all if that
one has broken off. -/
theorem run_bind (x : ExceptT ε LogM α) (f : α → ExceptT ε LogM β) (messages : Array Message) :
    (x >>= f).run.run messages =
      match x.run.run messages with
      | (.ok a, later) => (f a).run.run later
      | (.error e, later) => (.error e, later) := by
  show (match x.run.run messages with
    | (r, later) => ((match r with
      | .ok a => f a
      | .error e => pure (.error e) : LogM (Except ε β))).run later) = _
  rcases x.run.run messages with ⟨_ | _, _⟩ <;> rfl

/-- What follows a step that succeeds. -/
theorem run_bind_of_ok {x : ExceptT ε LogM α} {f : α → ExceptT ε LogM β} {a : α}
    {messages later : Array Message} (h : x.run.run messages = (.ok a, later)) :
    (x >>= f).run.run messages = (f a).run.run later := by
  rw [run_bind, h]

/-- Nothing follows a step that breaks off. -/
theorem run_bind_of_error {x : ExceptT ε LogM α} {f : α → ExceptT ε LogM β} {e : ε}
    {messages later : Array Message} (h : x.run.run messages = (.error e, later)) :
    (x >>= f).run.run messages = (.error e, later) := by
  rw [run_bind, h]

/-- What follows a result that is already there, if it is a success. -/
theorem run_lift_bind_of_ok {x : Except ε α} {f : α → ExceptT ε LogM β} {a : α} (h : x = .ok a)
    (messages : Array Message) :
    ((liftM x : ExceptT ε LogM α) >>= f).run.run messages = (f a).run.run messages := by
  rw [run_bind, run_lift, h]

/-- Nothing follows a result that is already there, if it is a failure. -/
theorem run_lift_bind_of_error {x : Except ε α} {f : α → ExceptT ε LogM β} {e : ε}
    (h : x = .error e) (messages : Array Message) :
    ((liftM x : ExceptT ε LogM α) >>= f).run.run messages = (.error e, messages) := by
  rw [run_bind, run_lift, h]

/-- A handler starts from the log of the step that has broken off. -/
theorem run_tryCatch (x : ExceptT ε LogM α) (handle : ε → ExceptT ε LogM α)
    (messages : Array Message) :
    (tryCatch x handle).run.run messages =
      match x.run.run messages with
      | (.ok a, later) => (.ok a, later)
      | (.error e, later) => (handle e).run.run later := by
  show (match x.run.run messages with
    | (r, later) => ((match r with
      | .ok a => pure (.ok a)
      | .error e => handle e : LogM (Except ε α))).run later) = _
  rcases x.run.run messages with ⟨_ | _, _⟩ <;> rfl

/-- Steps that all succeed, each with one message, add their messages in order. -/
theorem run_mapM {f : α → ExceptT ε LogM β} {g : α → β} {m : α → Message} :
    ∀ {as : List α} {messages : Array Message},
      (∀ a ∈ as, ∀ earlier, (f a).run.run earlier = (.ok (g a), earlier.push (m a))) →
        (as.mapM f).run.run messages = (.ok (as.map g), messages ++ (as.map m).toArray)
  | [], messages, _ => by
    show (_, _) = (_, _)
    simp
  | a :: as, messages, h => by
    have hhead := h a List.mem_cons_self
    have htail := fun b hb ↦ h b (List.mem_cons_of_mem a hb)
    rw [List.mapM_cons, run_bind_of_ok (hhead messages), run_bind_of_ok (run_mapM htail), run_pure]
    simp

end LogM

end TruthTable
