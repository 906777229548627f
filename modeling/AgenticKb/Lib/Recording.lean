import Mathlib.Data.List.Basic

namespace AgenticKb.Lib

/-! Programs that do work, which answers or fails, and that leave records of what they do. -/

/-- A program: it ends with a value, raises an error, goes on with the answer of some work, or leaves a
record. Work may also fail. -/
inductive Program (Entry Error α : Type) : Type 1 where
  | done (value : α)
  | raise (error : Error)
  | work (β : Type) (next : β → Program Entry Error α)
  | record (entry : Entry) (next : Program Entry Error α)

namespace Program

variable {Entry Error Fault α β : Type}

def bind : Program Entry Error α → (α → Program Entry Error β) → Program Entry Error β
  | .done value, f => f value
  | .raise error, _ => .raise error
  | .work γ next, f => .work γ fun answer => (next answer).bind f
  | .record entry next, f => .record entry (next.bind f)

instance : Monad (Program Entry Error) where
  pure := .done
  bind := bind

/-- Work that may answer with anything of its type. -/
def await (β : Type) : Program Entry Error β := .work β .done

/-- Work that answers with what is there to be found. -/
def reads (value : β) : Program Entry Error β := .work Unit fun _ => .done value

def write (entry : Entry) : Program Entry Error Unit := .record entry (.done ())

/-- A computation that has a value or raises. -/
def or_raise (error : Error) : Option β → Program Entry Error β
  | some value => .done value
  | none => .raise error

/-- One way through a program. -/
inductive Run (Fault : Type) : Program Entry Error α → Type 1 where
  | done {value : α} : Run Fault (.done value)
  | raise {error : Error} : Run Fault (.raise error)
  | answers {β : Type} {next : β → Program Entry Error α} (answer : β) (rest : Run Fault (next answer)) :
      Run Fault (.work β next)
  | fails {β : Type} {next : β → Program Entry Error α} (fault : Fault) : Run Fault (.work β next)
  | records {entry : Entry} {next : Program Entry Error α} (rest : Run Fault next) : Run Fault (.record entry next)

/-- How a run ends. -/
inductive Ending (Error Fault α : Type) where
  | returned (value : α)
  | raised (error : Error)
  | failed (fault : Fault)
deriving DecidableEq, Repr

namespace Run

/-- The records a run leaves. -/
def entries : {p : Program Entry Error α} → Run Fault p → List Entry
  | _, .done | _, .raise | _, .fails _ => []
  | _, .answers _ rest => rest.entries
  | .record entry _, .records rest => entry :: rest.entries

def ending : {p : Program Entry Error α} → Run Fault p → Ending Error Fault α
  | .done value, .done => .returned value
  | .raise error, .raise => .raised error
  | _, .answers _ rest => rest.ending
  | _, .fails fault => .failed fault
  | _, .records rest => rest.ending

/-- The fault the run ends with. -/
def fault {p : Program Entry Error α} (run : Run Fault p) : Option Fault :=
  match run.ending with
  | .failed fault => some fault
  | _ => none

/-- What fails before the first record would be covered for, and what fails after it would not. -/
def orderly (covered : Fault → Bool) : Bool → {p : Program Entry Error α} → Run Fault p → Bool
  | _, _, .done | _, _, .raise => true
  | recorded, _, .answers _ rest => rest.orderly covered recorded
  | recorded, _, .fails fault => covered fault != recorded
  | _, _, .records rest => rest.orderly covered true

end Run

/-- Whatever the work answers, the program leaves one record, unless there is one, before it ends with a value
or an error that says so; any other error is raised before the record. -/
def LeavesOne (tells : Error → Bool) : Bool → Program Entry Error α → Prop
  | recorded, .done _ => recorded = true
  | recorded, .raise error => tells error = recorded
  | recorded, .work _ next => ∀ answer, LeavesOne tells recorded (next answer)
  | recorded, .record _ next => recorded = false ∧ LeavesOne tells true next

/-- Whatever the work answers, the program leaves no record and ends with a value. -/
def LeavesNone : Program Entry Error α → Prop
  | .done _ => True
  | .raise _ => False
  | .work _ next => ∀ answer, LeavesNone (next answer)
  | .record _ _ => False

section Bind

variable {γ : Type} {tells : Error → Bool} {recorded : Bool}

@[simp] theorem pure_eq (value : α) : (pure value : Program Entry Error α) = .done value := rfl

@[simp] theorem bind_eq (p : Program Entry Error α) (f : α → Program Entry Error β) : p >>= f = p.bind f := rfl

@[simp] theorem done_bind (value : α) (f : α → Program Entry Error β) : (Program.done value).bind f = f value := rfl

@[simp] theorem raise_bind (error : Error) (f : α → Program Entry Error β) :
    (Program.raise error).bind f = .raise error := rfl

@[simp] theorem await_bind (f : β → Program Entry Error α) : (await β).bind f = .work β f := rfl

@[simp] theorem reads_bind (value : β) (f : β → Program Entry Error α) :
    (reads value).bind f = .work Unit fun _ => f value := rfl

@[simp] theorem write_bind (entry : Entry) (f : Unit → Program Entry Error α) :
    (write entry).bind f = .record entry (f ()) := rfl

@[simp] theorem leavesOne_done (value : α) :
    LeavesOne tells recorded (.done value : Program Entry Error α) ↔ recorded = true := Iff.rfl

@[simp] theorem leavesOne_raise (error : Error) :
    LeavesOne tells recorded (.raise error : Program Entry Error α) ↔ tells error = recorded := Iff.rfl

@[simp] theorem leavesOne_work (next : γ → Program Entry Error α) :
    LeavesOne tells recorded (.work γ next) ↔ ∀ answer, LeavesOne tells recorded (next answer) := Iff.rfl

@[simp] theorem leavesOne_record (entry : Entry) (next : Program Entry Error α) :
    LeavesOne tells recorded (.record entry next) ↔ recorded = false ∧ LeavesOne tells true next := Iff.rfl

/-- What comes after a computation that may raise before the record. -/
theorem leavesOne_or_raise {error : Error} (herror : tells error = false) {value : Option β}
    {f : β → Program Entry Error α} (hnext : ∀ found ∈ value, LeavesOne tells false (f found)) :
    LeavesOne tells false ((or_raise error value).bind f) := by
  cases value with
  | none => exact herror
  | some found => exact hnext found rfl

end Bind

section Runs

variable {tells : Error → Bool} {covered : Fault → Bool}

/-- The number of records that someone adds for how a run has ended: one for an error that does not say
there is one, and one for a fault that is covered. -/
def Ending.owed (tells : Error → Bool) (covered : Fault → Bool) : Ending Error Fault α → Nat
  | .returned _ => 0
  | .raised error => if tells error then 0 else 1
  | .failed fault => if covered fault then 1 else 0

/-- The records of a run of a program that leaves one, and those that are added, are one in all exactly if a
fault is met before the record where it is covered and after it where it is not. -/
theorem Run.one_record_iff {p : Program Entry Error α} {recorded : Bool} (hleaves : LeavesOne tells recorded p)
    (run : Run Fault p) :
    recorded.toNat + run.entries.length + run.ending.owed tells covered = 1 ↔ run.orderly covered recorded = true := by
  induction run generalizing recorded with
  | done =>
    simp only [leavesOne_done] at hleaves
    subst hleaves
    exact iff_of_true rfl rfl
  | @raise error =>
    simp only [leavesOne_raise] at hleaves
    subst hleaves
    refine iff_of_true ?_ rfl
    cases htells : tells error with
    | true => simp [Run.entries, Run.ending, Ending.owed, htells]
    | false => simp [Run.entries, Run.ending, Ending.owed, htells]
  | answers answer rest ih => exact ih (hleaves answer)
  | fails fault =>
    simp only [Run.entries, Run.ending, Ending.owed, Run.orderly, List.length_nil]
    cases covered fault with
    | true => cases recorded <;> simp
    | false => cases recorded <;> simp
  | @records entry next rest ih =>
    obtain ⟨rfl, hrest⟩ := hleaves
    have hone := ih hrest
    show false.toNat + (entry :: rest.entries).length + rest.ending.owed tells covered = 1 ↔
      rest.orderly covered true = true
    rw [← hone, List.length_cons, Bool.toNat_false, Bool.toNat_true]
    omega

/-- A program that leaves no record is recorded once exactly if it meets a fault that is covered. -/
theorem Run.no_record_iff {p : Program Entry Error α} (hleaves : LeavesNone p) (run : Run Fault p) :
    run.entries.length + run.ending.owed tells covered = 1 ↔
      run.orderly covered false = true ∧ run.fault.isSome = true := by
  induction run with
  | done => simp [Run.entries, Run.ending, Ending.owed, Run.fault]
  | raise => exact absurd hleaves id
  | answers answer rest ih => exact ih (hleaves answer)
  | fails fault =>
    cases hcovered : covered fault with
    | true => simp [Run.entries, Run.ending, Ending.owed, Run.orderly, Run.fault, hcovered]
    | false => simp [Run.entries, Run.ending, Ending.owed, Run.orderly, Run.fault, hcovered]
  | records => exact absurd hleaves id

end Runs

end Program

end AgenticKb.Lib
