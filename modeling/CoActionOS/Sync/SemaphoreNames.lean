import CoActionOS.Errno
import CoActionOS.Lib.CString
import CoActionOS.Lib.NameTable

/-!
# Named semaphores

The list of `sem.c` and the calls that work on it.  An entry of the list is never given back: `is_initialized` of an
entry that may be used again is zero.  A semaphore is a place in the list, `SEM_FAILED` is none.

A new semaphore keeps the `pshared` and the `pid` that the memory of its entry had.

A process is denied a semaphore when that `pshared` is zero and that `pid` is of another process.
-/

namespace CoActionOS

namespace Semaphore

open CString (text)
open NameTable

/-! ### The code -/

/-- `NAME_MAX` -/
def nameMax : Nat := 24

/-- `sem_t` -/
structure SemT where
  isInitialized : Int
  value : UInt32
  pshared : Int
  pid : Int
  references : Int
  name : Vector UInt8 nameMax
  mode : UInt32
  deriving DecidableEq, Repr

structure OFlag where
  creat : Bool
  excl : Bool
  deriving DecidableEq, Repr

/-- `strncpy(entry, name, NAME_MAX-1)` -/
def copyName (entry : Vector UInt8 nameMax) (name : List UInt8) : Vector UInt8 nameMax :=
  Vector.ofFn fun i => if i.val < nameMax - 1 then (name[i.val]?).getD 0 else entry[i]

/-- `sem_find_named` -/
def semFindNamed (list : List SemT) (name : List UInt8) : Option Nat :=
  list.findIdx? fun sem => sem.isInitialized ≠ 0 && CString.strncmpEq nameMax sem.name.toList (name ++ [0])

/-- `sem_find_free`; `memory` is what `_malloc_r` gives for a new entry. -/
def semFindFree (list : List SemT) (memory : Option SemT) : Option (List SemT × Nat) :=
  match list.findIdx? fun sem => sem.isInitialized = 0 with
  | some sem => some (list, sem)
  | none => memory.map fun entry => (list ++ [entry], list.length)

/-- `sem_open` -/
def semOpen (list : List SemT) (name : List UInt8) (oflag : OFlag) (mode value : UInt32) (memory : Option SemT) :
    List SemT × Except Errno Nat :=
  if min name.length nameMax = nameMax then (list, .error .enametoolong)
  else
    -- "Check the flags to determine the appropriate action"
    match semFindNamed list name with
    | none =>
      if oflag.creat then
        match semFindFree list memory with
        | none => (list, .error .enomem)
        | some (list, sem) =>
          (list.modify sem fun new =>
            { new with isInitialized := 1, value, references := 1, mode, name := copyName new.name name }, .ok sem)
      else (list, .error .enoent)
    | some sem =>
      if oflag.creat && oflag.excl then (list, .error .eexist)
      else (list.modify sem fun new => { new with references := new.references + 1 }, .ok sem)

/-- What `check_initialized` refuses in process `pid`. -/
def checkInitialized (pid : Int) (sem : SemT) : Option Errno :=
  if sem.isInitialized = 0 then some .einval
  else if sem.pshared = 0 ∧ pid ≠ sem.pid then some .eacces
  else none

/-- A call on a semaphore that it checks first; a place outside the list stands for `NULL`. -/
def checked {α : Type} (list : List SemT) (pid : Int) (sem : Nat) (f : SemT → SemT × Except Errno α) :
    List SemT × Except Errno α :=
  match list[sem]? with
  | none => (list, .error .einval)
  | some entry =>
    match checkInitialized pid entry with
    | some errno => (list, .error errno)
    | none => (list.set sem (f entry).1, (f entry).2)

/-- What `sem_close` makes of an entry. -/
def SemT.closed (sem : SemT) : SemT :=
  let sem := if sem.references > 0 then { sem with references := sem.references - 1 } else sem
  if sem.references = 0 ∧ sem.isInitialized = 2 then { sem with isInitialized := 0 } else sem

/-- `sem_close` -/
def semClose (list : List SemT) (pid : Int) (sem : Nat) : List SemT × Except Errno Unit :=
  checked list pid sem fun sem => (sem.closed, .ok ())

/-- What `sem_unlink` makes of an entry. -/
def SemT.unlinked (sem : SemT) : SemT :=
  if sem.references = 0 then { sem with isInitialized := 0 } else { sem with isInitialized := 2 }

/-- `sem_unlink` -/
def semUnlink (list : List SemT) (pid : Int) (name : List UInt8) : List SemT × Except Errno Unit :=
  if min name.length nameMax = nameMax then (list, .error .enametoolong)
  else
    match semFindNamed list name with
    | none => (list, .error .enoent)
    | some sem => checked list pid sem fun sem => (sem.unlinked, .ok ())

/-- `sem_getvalue` -/
def semGetvalue (list : List SemT) (pid : Int) (sem : Nat) : List SemT × Except Errno UInt32 :=
  checked list pid sem fun sem => (sem, .ok sem.value)

/-- `sem_trywait` -/
def semTrywait (list : List SemT) (pid : Int) (sem : Nat) : List SemT × Except Errno Unit :=
  checked list pid sem fun sem =>
    if sem.value > 0 then ({ sem with value := sem.value - 1 }, .ok ()) else (sem, .error .eagain)

/-- `sem_post`, but for the thread that it wakes. -/
def semPost (list : List SemT) (pid : Int) (sem : Nat) : List SemT × Except Errno Unit :=
  checked list pid sem fun sem => ({ sem with value := sem.value + 1 }, .ok ())

/-! ### The list by its names -/

/-- What a semaphore is besides its name and its count. -/
structure Content where
  value : UInt32
  pshared : Int
  pid : Int
  mode : UInt32
  deriving DecidableEq, Repr

def SemT.view (sem : SemT) : Option (Object (List UInt8) Content) :=
  if sem.isInitialized = 0 then none
  else
    some ⟨text sem.name.toList, sem.references.toNat, sem.isInitialized = 2,
      ⟨sem.value, sem.pshared, sem.pid, sem.mode⟩⟩

def slots (list : List SemT) : Slots (List UInt8) Content := list.map SemT.view

/-- A name that fits with its zero where `strncpy` puts one. -/
def Fits (name : List UInt8) : Prop := 0 ∉ name ∧ name.length < nameMax - 1

instance (name : List UInt8) : Decidable (Fits name) := inferInstanceAs (Decidable (_ ∧ _))

/-- An entry that is in use counts its handles. -/
def SemT.Counts (sem : SemT) : Prop :=
  sem.isInitialized ≠ 0 → 0 ≤ sem.references ∧ (sem.isInitialized = 1 ∨ sem.isInitialized = 2)

/-! ### Calls -/

inductive Call
  | open (name : List UInt8) (oflag : OFlag) (mode value : UInt32) (memory : Option SemT)
  | close (pid : Int) (sem : Nat)
  | unlink (pid : Int) (name : List UInt8)
  | getvalue (pid : Int) (sem : Nat)
  | trywait (pid : Int) (sem : Nat)
  | post (pid : Int) (sem : Nat)
  deriving DecidableEq, Repr

inductive Reply
  | opened (sem : Nat)
  | value (value : UInt32)
  | done
  | failed (errno : Errno)
  deriving DecidableEq, Repr

def Reply.of {α : Type} (f : α → Reply) : Except Errno α → Reply
  | .ok a => f a
  | .error errno => .failed errno

def answer {α : Type} (f : α → Reply) (p : List SemT × Except Errno α) : List SemT × Reply := (p.1, .of f p.2)

def exec (list : List SemT) : Call → List SemT × Reply
  | .open name oflag mode value memory => answer .opened (semOpen list name oflag mode value memory)
  | .close pid sem => answer (fun _ => .done) (semClose list pid sem)
  | .unlink pid name => answer (fun _ => .done) (semUnlink list pid name)
  | .getvalue pid sem => answer .value (semGetvalue list pid sem)
  | .trywait pid sem => answer (fun _ => .done) (semTrywait list pid sem)
  | .post pid sem => answer (fun _ => .done) (semPost list pid sem)

/-! ### Semaphores by name -/

/-- The semaphores there are by their names, the handles that are out, and what the memory of each entry had for
`pshared` and `pid`. -/
structure Names where
  account : Account (List UInt8) Content
  memory : List (Int × Int)

namespace Names

variable (a : Names)

/-- The semaphore that a handle was opened for. -/
def object (sem : Nat) : Option (Object (List UInt8) Content) := (a.account.held.nameOf sem).bind a.account.objects

/-- `EACCES` -/
def denies (pid : Int) (o : Object (List UInt8) Content) : Prop := o.value.pshared = 0 ∧ pid ≠ o.value.pid

instance (pid : Int) (o : Object (List UInt8) Content) : Decidable (denies pid o) := inferInstanceAs (Decidable (_ ∧ _))

/-- A name ends in front of a zero, and one that is opened leaves room for the zero that `strncpy` puts; a handle is one
that is out. -/
def Permits : Call → Prop
  | .open name _ _ _ _ => 0 ∉ name ∧ name.length ≠ nameMax - 1
  | .unlink _ name => 0 ∉ name
  | .close _ sem | .getvalue _ sem | .trywait _ sem | .post _ sem => ∃ name, (sem, name) ∈ a.account.held

/-- The reply to a call that is denied to some processes. -/
def Guarded (pid : Int) (sem : Nat) (reply : Object (List UInt8) Content → Reply) (r : Reply) : Prop :=
  ∃ o, a.object sem = some o ∧ r = if denies pid o then .failed .eacces else reply o

/-- What a call answers. -/
def Expects : Call → Reply → Prop
  | .open name oflag _ _ memory, r =>
    if nameMax ≤ name.length then r = .failed .enametoolong
    else
      match a.account.objects name with
      | some _ =>
        if oflag.creat = true ∧ oflag.excl = true then r = .failed .eexist
        else ∃ sem, r = .opened sem ∧ ∀ j m, (j, m) ∈ a.account.held → (j = sem ↔ m = name)
      | none =>
        if oflag.creat = true then
          (∃ sem, r = .opened sem ∧ ∀ j m, (j, m) ∈ a.account.held → j ≠ sem) ∨ memory = none ∧ r = .failed .enomem
        else r = .failed .enoent
  | .unlink pid name, r =>
    if nameMax ≤ name.length then r = .failed .enametoolong
    else
      match a.account.objects name with
      | some o => r = if denies pid o then .failed .eacces else .done
      | none => r = .failed .enoent
  | .close pid sem, r => a.Guarded pid sem (fun _ => .done) r
  | .getvalue pid sem, r => a.Guarded pid sem (fun o => .value o.value.value) r
  | .trywait pid sem, r => a.Guarded pid sem (fun o => if o.value.value = 0 then .failed .eagain else .done) r
  | .post pid sem, r => a.Guarded pid sem (fun _ => .done) r

def put (name : List UInt8) (x : Option (Object (List UInt8) Content)) (held : Handles (List UInt8)) : Names :=
  { a with account := a.account.put name x held }

/-- Another value for the semaphore of a handle. -/
def setValue (sem : Nat) (f : UInt32 → UInt32) : Names :=
  match a.object sem with
  | some o => a.put o.name (some { o with value := { o.value with value := f o.value.value } }) a.account.held
  | none => a

/-- What is known after a call. -/
def next : Call → Reply → Names
  | .open name _ mode value memory, .opened sem =>
    let held := (sem, name) :: a.account.held
    match a.account.objects name with
    | some o => a.put name (some { o with holders := o.holders + 1 }) held
    | none =>
      let entries := if sem < a.memory.length then a.memory
        else a.memory ++ (memory.map fun s => (s.pshared, s.pid)).toList
      let (pshared, pid) := (entries[sem]?).getD (0, 0)
      { a.put name (some ⟨name, 1, false, ⟨value, pshared, pid, mode⟩⟩) held with memory := entries }
  | .unlink _ name, .done =>
    match a.account.objects name with
    | some o => a.put name (if o.holders = 0 then none else some { o with doomed := true }) a.account.held
    | none => a
  | .close _ sem, .done =>
    match a.object sem with
    | some o => a.put o.name o.released (a.account.held.without sem o.name)
    | none => a
  | .trywait _ sem, .done => a.setValue sem fun value => value - 1
  | .post _ sem, .done => a.setValue sem fun value => value + 1
  | _, _ => a

def empty : Names := ⟨Account.empty, []⟩

end Names

/-- Calls as they are permitted, and the replies that are expected. -/
def Faithful : Names → List SemT → List Call → Prop
  | _, _, [] => True
  | a, list, c :: cs =>
    a.Permits c → a.Expects c (exec list c).2 ∧ Faithful (a.next c (exec list c).2) (exec list c).1 cs

end Semaphore

end CoActionOS
