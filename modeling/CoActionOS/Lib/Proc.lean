import Mathlib.Logic.Basic
import Mathlib.Data.List.Basic
import Mathlib.Tactic.SplitIfs

/-!
# Programs that talk over a byte channel

`Proc ι ρ α` is the tree of everything a program may do until it returns a value in `α`: read from the
channel, write to it, pause, discard what has arrived, and call its surroundings with an `ι` to be
answered by a `ρ`.  A read asks for at most `n` bytes, to be stored from the place `dst` of the
destination on; it is answered by `none` for an error or by the bytes that came, which may be none.

`Proc.run` runs a program alone, against an `Env` that lists what its operations will find.
-/

namespace CoActionOS

inductive Proc (ι ρ α : Type)
  | ret (a : α)
  | read (dst n : Nat) (k : Option (List UInt8) → Proc ι ρ α)
  /-- The answer is the number of bytes written, or negative. -/
  | write (bs : List UInt8) (k : Int → Proc ι ρ α)
  | wait (ms : Nat) (k : Proc ι ρ α)
  | flush (k : Proc ι ρ α)
  | call (i : ι) (k : ρ → Proc ι ρ α)

namespace Proc

variable {ι ρ α β γ : Type}

def bind : Proc ι ρ α → (α → Proc ι ρ β) → Proc ι ρ β
  | ret a, f => f a
  | read dst n k, f => read dst n fun x => (k x).bind f
  | write bs k, f => write bs fun x => (k x).bind f
  | wait ms k, f => wait ms (k.bind f)
  | flush k, f => flush (k.bind f)
  | call i k, f => call i fun x => (k x).bind f

@[simp] theorem ret_bind (a : α) (f : α → Proc ι ρ β) : (ret a : Proc ι ρ α).bind f = f a := rfl

@[simp] theorem read_bind (dst n : Nat) (k : Option (List UInt8) → Proc ι ρ α)
    (f : α → Proc ι ρ β) : (read dst n k).bind f = read dst n fun x => (k x).bind f := rfl

@[simp] theorem write_bind (bs : List UInt8) (k : Int → Proc ι ρ α) (f : α → Proc ι ρ β) :
    (write bs k).bind f = write bs fun x => (k x).bind f := rfl

@[simp] theorem wait_bind (ms : Nat) (k : Proc ι ρ α) (f : α → Proc ι ρ β) :
    (wait ms k).bind f = wait ms (k.bind f) := rfl

@[simp] theorem flush_bind (k : Proc ι ρ α) (f : α → Proc ι ρ β) :
    (flush k).bind f = flush (k.bind f) := rfl

@[simp] theorem call_bind (i : ι) (k : ρ → Proc ι ρ α) (f : α → Proc ι ρ β) :
    (call i k).bind f = call i fun x => (k x).bind f := rfl

theorem bind_assoc (p : Proc ι ρ α) (f : α → Proc ι ρ β) (g : β → Proc ι ρ γ) :
    (p.bind f).bind g = p.bind fun a => (f a).bind g := by
  induction p with
  | ret a => rfl
  | read dst n k ih =>
    simp only [read_bind]
    congr 1
    ext x
    rw [ih x]
  | write bs k ih =>
    simp only [write_bind]
    congr 1
    ext x
    rw [ih x]
  | wait ms k ih => rw [wait_bind, wait_bind, wait_bind, ih]
  | flush k ih => rw [flush_bind, flush_bind, flush_bind, ih]
  | call i k ih =>
    simp only [call_bind]
    congr 1
    ext x
    rw [ih x]

theorem bind_ret (p : Proc ι ρ α) : p.bind ret = p := by
  induction p with
  | ret a => rfl
  | read dst n k ih =>
    rw [read_bind]
    congr 1
    ext x
    exact ih x
  | write bs k ih =>
    rw [write_bind]
    congr 1
    ext x
    exact ih x
  | wait ms k ih => rw [wait_bind, ih]
  | flush k ih => rw [flush_bind, ih]
  | call i k ih =>
    rw [call_bind]
    congr 1
    ext x
    exact ih x

/-- The program has something left to do. -/
def Open (p : Proc ι ρ α) : Prop := ∀ a, p ≠ ret a

theorem Open.bind {p : Proc ι ρ α} (h : p.Open) (f : α → Proc ι ρ β) : (p.bind f).Open := by
  cases p with
  | ret a => exact absurd rfl (h a)
  | read dst n k => exact fun _ h => by cases h
  | write bs k => exact fun _ h => by cases h
  | wait ms k => exact fun _ h => by cases h
  | flush k => exact fun _ h => by cases h
  | call i k => exact fun _ h => by cases h

/-! ### Running alone -/

/-- What a program will find: the results of its reads, after which nothing comes any more, of its
writes, after which all succeed, and of its calls. -/
structure Env (ρ : Type) where
  reads : List (Option (List UInt8))
  writes : List Int
  answers : List ρ

inductive Event (ι : Type)
  | read (dst n : Nat)
  | wrote (bs : List UInt8)
  | called (i : ι)

namespace Env

variable (env : Env ρ)

/-- The answer to a request for `n` bytes.  Bytes that came and were not asked for are kept. -/
def read (n : Nat) : Option (List UInt8) × Env ρ :=
  match env.reads with
  | [] => (some [], env)
  | none :: rest => (none, { env with reads := rest })
  | some bs :: rest =>
    (some (bs.take n),
      { env with reads := if bs.drop n = [] then rest else some (bs.drop n) :: rest })

/-- All the bytes that are still to come. -/
def content : List UInt8 := (env.reads.map fun r => r.getD []).flatten

def write (len : Nat) : Int × Env ρ :=
  match env.writes with
  | [] => (len, env)
  | w :: rest => (w, { env with writes := rest })

/-- Everything up to the next empty read is discarded. -/
def flush : Env ρ :=
  { env with reads := (env.reads.dropWhile fun r => r.any fun bs => !bs.isEmpty).tail }

def answer [Inhabited ρ] : ρ × Env ρ :=
  match env.answers with
  | [] => (default, env)
  | a :: rest => (a, { env with answers := rest })

theorem content_read (n : Nat) : (env.read n).1.getD [] ++ (env.read n).2.content = env.content := by
  unfold read content
  split
  · rfl
  · rename_i rest h
    rw [h]
    rfl
  · rename_i bs rest h
    rw [h]
    simp only [Option.getD_some, List.map_cons, List.flatten_cons]
    split_ifs with hdrop
    · conv_rhs => rw [← List.take_append_drop n bs, hdrop, List.append_nil]
    · rw [List.map_cons, List.flatten_cons, ← List.append_assoc, Option.getD_some,
        List.take_append_drop]

theorem reads_write (len : Nat) : (env.write len).2.reads = env.reads := by
  unfold write
  split <;> rfl

theorem reads_answer [Inhabited ρ] : env.answer.2.reads = env.reads := by
  unfold answer
  split <;> rfl

end Env

/-- How a run alone ends. -/
structure Finished (ι ρ α : Type) where
  events : List (Event ι)
  env : Env ρ
  value : α

def Finished.after (es : List (Event ι)) (o : Finished ι ρ α) : Finished ι ρ α :=
  { o with events := es ++ o.events }

@[simp] theorem after_value (es : List (Event ι)) (o : Finished ι ρ α) :
    (o.after es).value = o.value := rfl

@[simp] theorem after_env (es : List (Event ι)) (o : Finished ι ρ α) : (o.after es).env = o.env := rfl

@[simp] theorem after_events (es : List (Event ι)) (o : Finished ι ρ α) :
    (o.after es).events = es ++ o.events := rfl

/-- What was written. -/
def Finished.written (o : Finished ι ρ α) : List (List UInt8) :=
  o.events.filterMap fun e => match e with
    | .wrote bs => some bs
    | _ => none

theorem written_after_wrote (bs : List UInt8) (o : Finished ι ρ α) :
    (o.after [.wrote bs]).written = bs :: o.written := rfl

theorem written_after_reads {es : List (Event ι)} (hes : ∀ e ∈ es, ∃ dst n, e = .read dst n)
    (o : Finished ι ρ α) : (o.after es).written = o.written := by
  unfold Finished.written
  rw [after_events, List.filterMap_append, List.append_left_eq_self, List.filterMap_eq_nil_iff]
  intro e he
  obtain ⟨dst, n, rfl⟩ := hes e he
  rfl

section run

variable [Inhabited ρ]

def run : Proc ι ρ α → Env ρ → Finished ι ρ α
  | ret a, env => ⟨[], env, a⟩
  | read dst n k, env => ((k (env.read n).1).run (env.read n).2).after [.read dst n]
  | write bs k, env => ((k (env.write bs.length).1).run (env.write bs.length).2).after [.wrote bs]
  | wait _ k, env => k.run env
  | flush k, env => k.run env.flush
  | call i k, env => ((k env.answer.1).run env.answer.2).after [.called i]

theorem run_bind (p : Proc ι ρ α) (f : α → Proc ι ρ β) (env : Env ρ) :
    (p.bind f).run env = ((f (p.run env).value).run (p.run env).env).after (p.run env).events := by
  induction p generalizing env with
  | ret a => rfl
  | read dst n k ih => simp only [read_bind, run, ih, Finished.after, List.append_assoc]
  | write bs k ih => simp only [write_bind, run, ih, Finished.after, List.append_assoc]
  | wait ms k ih => simp only [wait_bind, run, ih]
  | flush k ih => simp only [flush_bind, run, ih]
  | call i k ih => simp only [call_bind, run, ih, Finished.after, List.append_assoc]

end run

/-! ### What holds of every run -/

/-- Whatever the program finds, all its operations meet `P` and what it returns meets `Q`.  A read is
answered by no more than was asked for. -/
def Always (P : Event ι → Prop) : Proc ι ρ α → (α → Prop) → Prop
  | ret a, Q => Q a
  | read dst n k, Q =>
    P (.read dst n) ∧ (k none).Always P Q ∧ ∀ bs, bs.length ≤ n → (k (some bs)).Always P Q
  | write bs k, Q => P (.wrote bs) ∧ ∀ x, (k x).Always P Q
  | wait _ k, Q => k.Always P Q
  | flush k, Q => k.Always P Q
  | call i k, Q => P (.called i) ∧ ∀ x, (k x).Always P Q

variable {P : Event ι → Prop}

theorem always_true (p : Proc ι ρ α) : p.Always (fun _ => True) fun _ => True := by
  induction p with
  | ret a => trivial
  | read dst n k ih => exact ⟨trivial, ih none, fun bs _ => ih (some bs)⟩
  | write bs k ih => exact ⟨trivial, ih⟩
  | wait ms k ih => exact ih
  | flush k ih => exact ih
  | call i k ih => exact ⟨trivial, ih⟩

theorem Always.mono {p : Proc ι ρ α} {Q Q' : α → Prop} (h : p.Always P Q) (hQ : ∀ a, Q a → Q' a) :
    p.Always P Q' := by
  induction p with
  | ret a => exact hQ a h
  | read dst n k ih =>
    obtain ⟨hread, hnone, hsome⟩ := h
    exact ⟨hread, ih none hnone, fun bs hbs => ih (some bs) (hsome bs hbs)⟩
  | write bs k ih => exact ⟨h.1, fun x => ih x (h.2 x)⟩
  | wait ms k ih => exact ih h
  | flush k ih => exact ih h
  | call i k ih => exact ⟨h.1, fun x => ih x (h.2 x)⟩

theorem Always.mono_event {P' : Event ι → Prop} {p : Proc ι ρ α} {Q : α → Prop} (h : p.Always P Q)
    (hP : ∀ e, P e → P' e) : p.Always P' Q := by
  induction p with
  | ret a => exact h
  | read dst n k ih =>
    obtain ⟨hread, hnone, hsome⟩ := h
    exact ⟨hP _ hread, ih none hnone, fun bs hbs => ih (some bs) (hsome bs hbs)⟩
  | write bs k ih => exact ⟨hP _ h.1, fun x => ih x (h.2 x)⟩
  | wait ms k ih => exact ih h
  | flush k ih => exact ih h
  | call i k ih => exact ⟨hP _ h.1, fun x => ih x (h.2 x)⟩

theorem Always.bind {p : Proc ι ρ α} {f : α → Proc ι ρ β} {Q : α → Prop} {Q' : β → Prop}
    (h : p.Always P Q) (hf : ∀ a, Q a → (f a).Always P Q') : (p.bind f).Always P Q' := by
  induction p with
  | ret a => exact hf a h
  | read dst n k ih =>
    obtain ⟨hread, hnone, hsome⟩ := h
    exact ⟨hread, ih none hnone, fun bs hbs => ih (some bs) (hsome bs hbs)⟩
  | write bs k ih => exact ⟨h.1, fun x => ih x (h.2 x)⟩
  | wait ms k ih => exact ih h
  | flush k ih => exact ih h
  | call i k ih => exact ⟨h.1, fun x => ih x (h.2 x)⟩

theorem length_read_le (env : Env ρ) (n : Nat) (bs : List UInt8) (h : (env.read n).1 = some bs) :
    bs.length ≤ n := by
  unfold Env.read at h
  split at h
  · simp only [Option.some.injEq] at h
    rw [← h]
    exact Nat.zero_le n
  · exact absurd h (by simp)
  · simp only [Option.some.injEq] at h
    rw [← h]
    exact List.length_take_le _ _

theorem Always.run [Inhabited ρ] {p : Proc ι ρ α} {Q : α → Prop} (h : p.Always P Q) (env : Env ρ) :
    (∀ e ∈ (p.run env).events, P e) ∧ Q (p.run env).value := by
  induction p generalizing env with
  | ret a => exact ⟨by simp [Proc.run], h⟩
  | read dst n k ih =>
    obtain ⟨hread, hnone, hsome⟩ := h
    have hk : (k (env.read n).1).Always P Q := by
      cases hres : (env.read n).1 with
      | none => exact hnone
      | some bs => exact hsome bs (length_read_le env n bs hres)
    obtain ⟨hevents, hvalue⟩ := ih _ hk (env.read n).2
    refine ⟨fun e he => ?_, hvalue⟩
    rcases List.mem_cons.mp he with rfl | he
    · exact hread
    · exact hevents e he
  | write bs k ih =>
    obtain ⟨hevents, hvalue⟩ := ih _ (h.2 (env.write bs.length).1) (env.write bs.length).2
    refine ⟨fun e he => ?_, hvalue⟩
    rcases List.mem_cons.mp he with rfl | he
    · exact h.1
    · exact hevents e he
  | wait ms k ih => exact ih h env
  | flush k ih => exact ih h env.flush
  | call i k ih =>
    obtain ⟨hevents, hvalue⟩ := ih _ (h.2 env.answer.1) env.answer.2
    refine ⟨fun e he => ?_, hvalue⟩
    rcases List.mem_cons.mp he with rfl | he
    · exact h.1
    · exact hevents e he

/-- A program that only reads sees nothing but the channel. -/
theorem Always.run_congr [Inhabited ρ] {p : Proc ι ρ α} {Q : α → Prop}
    (h : p.Always (fun e => ∃ dst n, e = .read dst n) Q) {env env' : Env ρ}
    (hreads : env'.reads = env.reads) :
    (p.run env').value = (p.run env).value ∧ (p.run env').env.reads = (p.run env).env.reads := by
  induction p generalizing env env' with
  | ret a => exact ⟨rfl, hreads⟩
  | read dst n k ih =>
    obtain ⟨_, hnone, hsome⟩ := h
    have hres : (env'.read n).1 = (env.read n).1 := by
      unfold Env.read
      rw [hreads]
      split <;> rfl
    have hrest : (env'.read n).2.reads = (env.read n).2.reads := by
      unfold Env.read
      rw [hreads]
      split
      · exact hreads
      · rfl
      · rfl
    simp only [Proc.run, after_value, after_env, hres]
    cases hx : (env.read n).1 with
    | none => exact ih none hnone hrest
    | some bs => exact ih (some bs) (hsome bs (length_read_le env n bs hx)) hrest
  | write bs k ih => exact absurd h.1 (by simp)
  | wait ms k ih => exact ih h hreads
  | flush k ih =>
    apply ih h
    unfold Env.flush
    rw [hreads]
  | call i k ih => exact absurd h.1 (by simp)

/-- Such a program leaves the rest of what it will find as it is. -/
theorem Always.run_frame [Inhabited ρ] {p : Proc ι ρ α} {Q : α → Prop}
    (h : p.Always (fun e => ∃ dst n, e = .read dst n) Q) (env : Env ρ) :
    (p.run env).env.writes = env.writes ∧ (p.run env).env.answers = env.answers := by
  induction p generalizing env with
  | ret a => exact ⟨rfl, rfl⟩
  | read dst n k ih =>
    obtain ⟨_, hnone, hsome⟩ := h
    have hrest : (env.read n).2.writes = env.writes ∧ (env.read n).2.answers = env.answers := by
      unfold Env.read
      split <;> exact ⟨rfl, rfl⟩
    rw [← hrest.1, ← hrest.2]
    cases hx : (env.read n).1 with
    | none => simpa only [Proc.run, hx, after_env] using ih none hnone (env.read n).2
    | some bs =>
      simpa only [Proc.run, hx, after_env] using
        ih (some bs) (hsome bs (length_read_le env n bs hx)) (env.read n).2
  | write bs k ih => exact absurd h.1 (by simp)
  | wait ms k ih => exact ih h env
  | flush k ih => exact ih h env.flush
  | call i k ih => exact absurd h.1 (by simp)

end Proc

end CoActionOS
