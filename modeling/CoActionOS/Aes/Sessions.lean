import CoActionOS.Aes.Schedule

/-!
# AES-256 in use

`session_ciphers` says that a context answers by the cipher from `aes256_init` on, `block_returns` that a block comes back.
-/

namespace CoActionOS

namespace Aes

open GF256 (ofByte X)
open Rijndael

section

variable {key : Fin 8 → Word} {k : KeyBytes}

/-! ### The loops -/

/-- One round of the loop of `aes256_encrypt_ecb`. -/
theorem encryptRound_spec {buf : Block} {rc : Byte} {n : Nat} (hk : Holds key (n / 2) k) (hrc : ofByte rc = X ^ (n / 2)) :
    stateOf (encryptRound (buf, k, rc) (n + 1)).1 =
        mixColumns (shiftRows (subBytes (stateOf buf))) + roundKey (schedule key) (n + 1) ∧
      Holds key ((n + 1) / 2) (encryptRound (buf, k, rc) (n + 1)).2.1 ∧
      ofByte (encryptRound (buf, k, rc) (n + 1)).2.2 = X ^ ((n + 1) / 2) := by
  by_cases hodd : (n + 1) % 2 = 1
  · have hhalf : (n + 1) / 2 = n / 2 := by omega
    have hround : 2 * (n / 2) + 1 = n + 1 := by omega
    have hadd := hk.add_second (aesMixColumns (aesShiftRows (aesSubBytes buf)))
    rw [encryptRound, if_pos hodd, hhalf]
    refine ⟨?_, hk, hrc⟩
    rw [hround, stateOf_aesMixColumns, stateOf_aesShiftRows, stateOf_aesSubBytes] at hadd
    exact hadd
  · have hhalf : (n + 1) / 2 = n / 2 + 1 := by omega
    have hround : 2 * (n / 2 + 1) = n + 1 := by omega
    obtain ⟨hk', hrc'⟩ := hk.aesExpandEncKey hrc
    have hadd := hk'.add_first (aesMixColumns (aesShiftRows (aesSubBytes buf)))
    rw [encryptRound, if_neg hodd, hhalf]
    refine ⟨?_, hk', hrc'⟩
    rw [hround, stateOf_aesMixColumns, stateOf_aesShiftRows, stateOf_aesSubBytes] at hadd
    exact hadd

theorem encryptLoop_spec {s : State} {buf : Block} (hbuf : stateOf buf = rounds (schedule key) s 0) (hk : Holds key 0 k)
    (n : Nat) :
    stateOf ((List.range' 1 n).foldl encryptRound (buf, k, 1)).1 = rounds (schedule key) s n ∧
      Holds key (n / 2) ((List.range' 1 n).foldl encryptRound (buf, k, 1)).2.1 ∧
      ofByte ((List.range' 1 n).foldl encryptRound (buf, k, 1)).2.2 = X ^ (n / 2) := by
  induction n with
  | zero => exact ⟨hbuf, hk, rfl⟩
  | succ n ih =>
    obtain ⟨hstate, hk', hrc⟩ := ih
    rw [List.range'_1_concat, List.foldl_append, List.foldl_cons, List.foldl_nil, Nat.add_comm 1 n]
    rw [rounds, ← hstate]
    exact encryptRound_spec hk' hrc

theorem aes256EncryptEcb_spec (ctx : Aes256Context) (buf : Block) :
    stateOf (aes256EncryptEcb ctx buf).2 = cipher (schedule (words ctx.enckey)) 13 (stateOf buf) := by
  have hk : Holds (words ctx.enckey) 0 ctx.enckey := fun t => by
    rw [Nat.mul_zero, Nat.zero_add]
    exact (schedule_key (words ctx.enckey) t).symm
  have hbuf := hk.add_first buf
  obtain ⟨hstate, hk', hrc⟩ := encryptLoop_spec (s := stateOf buf) hbuf hk 13
  have hlast := (hk'.aesExpandEncKey hrc).1.add_first
    (aesShiftRows (aesSubBytes ((List.range' 1 13).foldl encryptRound (aesAddRoundKey buf ctx.enckey 0, ctx.enckey, 1)).1))
  rw [stateOf_aesShiftRows, stateOf_aesSubBytes, hstate] at hlast
  rw [aes256EncryptEcb, aesAddRoundKeyCpy_eq]
  exact hlast

/-- One round of the loop of `aes256_decrypt_ecb`. -/
theorem decryptRound_spec {buf : Block} {rc : Byte} {n : Nat} (hn : n < 13) (hk : Holds key (7 - (n + 1) / 2) k)
    (hrc : ofByte rc = X ^ (7 - (n + 1) / 2)) :
    stateOf (decryptRound (buf, k, rc) (13 - n)).1 =
        invSubBytes (invShiftRows (invMixColumns (stateOf buf + roundKey (schedule key) (14 - (n + 1))))) ∧
      Holds key (7 - (n + 2) / 2) (decryptRound (buf, k, rc) (13 - n)).2.1 ∧
      ofByte (decryptRound (buf, k, rc) (13 - n)).2.2 = X ^ (7 - (n + 2) / 2) := by
  by_cases hodd : (13 - n) % 2 = 1
  · have hback : 7 - (n + 1) / 2 = 7 - (n + 2) / 2 + 1 := by omega
    have hround : 2 * (7 - (n + 2) / 2) + 1 = 14 - (n + 1) := by omega
    rw [hback] at hk hrc
    obtain ⟨hk', hrc'⟩ := hk.aesExpandDecKey hrc
    have hadd := hk'.add_second buf
    rw [hround] at hadd
    rw [decryptRound, if_pos hodd, ← hadd]
    exact ⟨by simp only [stateOf_aesSubBytesInv, stateOf_aesShiftRowsInv, stateOf_aesMixColumnsInv], hk', hrc'⟩
  · have hback : 7 - (n + 1) / 2 = 7 - (n + 2) / 2 := by omega
    have hround : 2 * (7 - (n + 2) / 2) = 14 - (n + 1) := by omega
    rw [hback] at hk hrc
    have hadd := hk.add_first buf
    rw [hround] at hadd
    rw [decryptRound, if_neg hodd, ← hadd]
    exact ⟨by simp only [stateOf_aesSubBytesInv, stateOf_aesShiftRowsInv, stateOf_aesMixColumnsInv], hk, hrc⟩

theorem decryptLoop_spec {s : State} {buf : Block}
    (hbuf : stateOf buf = invSubBytes (invShiftRows (invRounds (schedule key) 14 s 0))) (hk : Holds key 7 k) {n : Nat}
    (hn : n ≤ 13) :
    stateOf ((List.range' (14 - n) n).reverse.foldl decryptRound (buf, k, 0x80)).1 =
        invSubBytes (invShiftRows (invRounds (schedule key) 14 s n)) ∧
      Holds key (7 - (n + 1) / 2) ((List.range' (14 - n) n).reverse.foldl decryptRound (buf, k, 0x80)).2.1 ∧
      ofByte ((List.range' (14 - n) n).reverse.foldl decryptRound (buf, k, 0x80)).2.2 = X ^ (7 - (n + 1) / 2) := by
  induction n with
  | zero =>
    have htop : ofByte 0x80 = X ^ 7 := by rfl
    exact ⟨hbuf, hk, htop⟩
  | succ n ih =>
    obtain ⟨hstate, hk', hrc⟩ := ih (by omega)
    have hfirst : 14 - (n + 1) + 1 = 14 - n := by omega
    have hindex : 14 - (n + 1) = 13 - n := by omega
    rw [List.range'_succ, List.reverse_cons, List.foldl_append, List.foldl_cons, List.foldl_nil, hfirst, hindex]
    rw [invRounds, ← hstate]
    exact decryptRound_spec (by omega) hk' hrc

theorem aes256DecryptEcb_spec (ctx : Aes256Context) (buf : Block) (hk : Holds key 7 ctx.deckey) :
    stateOf (aes256DecryptEcb ctx buf).2 = invCipher (schedule key) 13 (stateOf buf) := by
  have hadd := hk.add_first buf
  have hbuf : stateOf (aesSubBytesInv (aesShiftRowsInv (aesAddRoundKey buf ctx.deckey 0))) =
      invSubBytes (invShiftRows (invRounds (schedule key) 14 (stateOf buf) 0)) := by
    rw [stateOf_aesSubBytesInv, stateOf_aesShiftRowsInv]
    exact congrArg (fun s => invSubBytes (invShiftRows s)) hadd
  obtain ⟨hstate, hk', -⟩ := decryptLoop_spec hbuf hk (le_refl 13)
  have hlast := hk'.add_first ((List.range' 1 13).reverse.foldl decryptRound
    (aesSubBytesInv (aesShiftRowsInv (aesAddRoundKey buf ctx.deckey 0)), ctx.deckey, 0x80)).1
  rw [aes256DecryptEcb, aesAddRoundKeyCpy_eq]
  refine hlast.trans ?_
  rw [invCipher, ← hstate]

end

/-! ### A context in use -/

theorem holds_aes256Init (ctx : Aes256Context) (k : KeyBytes) :
    (aes256Init ctx k).enckey = k ∧ Holds (words k) 7 (aes256Init ctx k).deckey := by
  have hexpand : ∀ n, Holds (words k) n ((List.range n).foldl (fun p _ => aesExpandEncKey p.1 p.2) (k, 1)).1 ∧
      ofByte ((List.range n).foldl (fun p _ => aesExpandEncKey p.1 p.2) (k, 1)).2 = X ^ n := by
    intro n
    induction n with
    | zero =>
      refine ⟨fun t => ?_, rfl⟩
      rw [Nat.mul_zero, Nat.zero_add]
      exact (schedule_key (words k) t).symm
    | succ n ih =>
      rw [List.range_succ, List.foldl_append]
      exact ih.1.aesExpandEncKey ih.2
  exact ⟨rfl, (hexpand 7).1⟩

/-- A call on a context that has its key. -/
inductive Call
  | encrypt (buf : Block)
  | decrypt (buf : Block)
  deriving DecidableEq, Repr

/-- The context and the block after a call. -/
def Call.exec (ctx : Aes256Context) : Call → Aes256Context × Block
  | encrypt buf => aes256EncryptEcb ctx buf
  | decrypt buf => aes256DecryptEcb ctx buf

/-- The context after some calls. -/
def after (ctx : Aes256Context) (calls : List Call) : Aes256Context := calls.foldl (fun ctx call => (call.exec ctx).1) ctx

/-- The blocks that calls leave. -/
def blocks (ctx : Aes256Context) : List Call → List Block
  | [] => []
  | call :: calls => (call.exec ctx).2 :: blocks (call.exec ctx).1 calls

/-- What a call leaves by the cipher. -/
def Call.answer (key : Fin 8 → Word) : Call → State
  | encrypt buf => cipher (schedule key) 13 (stateOf buf)
  | decrypt buf => invCipher (schedule key) 13 (stateOf buf)

/-- The context has the key for both directions. -/
def Keyed (k : KeyBytes) (ctx : Aes256Context) : Prop := ctx.enckey = k ∧ Holds (words k) 7 ctx.deckey

variable {ctx : Aes256Context} {k : KeyBytes}

theorem aes256EncryptEcb_keys (ctx : Aes256Context) (buf : Block) :
    (aes256EncryptEcb ctx buf).1.enckey = ctx.enckey ∧ (aes256EncryptEcb ctx buf).1.deckey = ctx.deckey := by
  rw [aes256EncryptEcb, aesAddRoundKeyCpy_eq]
  exact ⟨rfl, rfl⟩

theorem aes256DecryptEcb_keys (ctx : Aes256Context) (buf : Block) :
    (aes256DecryptEcb ctx buf).1.enckey = ctx.enckey ∧ (aes256DecryptEcb ctx buf).1.deckey = ctx.deckey := by
  rw [aes256DecryptEcb, aesAddRoundKeyCpy_eq]
  exact ⟨rfl, rfl⟩

theorem Keyed.exec (h : Keyed k ctx) (call : Call) :
    Keyed k (call.exec ctx).1 ∧ stateOf (call.exec ctx).2 = call.answer (words k) := by
  cases call with
  | encrypt buf =>
    obtain ⟨henc, hdec⟩ := aes256EncryptEcb_keys ctx buf
    refine ⟨⟨henc.trans h.1, ?_⟩, ?_⟩
    · rw [Call.exec, hdec]
      exact h.2
    · rw [← h.1]
      exact aes256EncryptEcb_spec ctx buf
  | decrypt buf =>
    obtain ⟨henc, hdec⟩ := aes256DecryptEcb_keys ctx buf
    refine ⟨⟨henc.trans h.1, ?_⟩, aes256DecryptEcb_spec ctx buf h.2⟩
    rw [Call.exec, hdec]
    exact h.2

theorem Keyed.after (h : Keyed k ctx) (calls : List Call) : Keyed k (after ctx calls) := by
  induction calls generalizing ctx with
  | nil => exact h
  | cons call calls ih => exact ih (h.exec call).1

theorem Keyed.blocks (h : Keyed k ctx) (calls : List Call) :
    (blocks ctx calls).map stateOf = calls.map (Call.answer (words k)) := by
  induction calls generalizing ctx with
  | nil => rfl
  | cons call calls ih => rw [Aes.blocks, List.map_cons, List.map_cons, (h.exec call).2, ih (h.exec call).1]

/-- Whatever the context was used for before, it answers by the cipher. -/
theorem session_ciphers (ctx : Aes256Context) (k : KeyBytes) (calls : List Call) :
    (blocks (aes256Init ctx k) calls).map stateOf = calls.map (Call.answer (words k)) :=
  Keyed.blocks (holds_aes256Init ctx k) calls

/-- A block comes back, whatever is done between. -/
theorem block_returns (ctx : Aes256Context) (k : KeyBytes) (before between : List Call) (buf : Block) :
    let ctx₁ := after (aes256Init ctx k) before
    (aes256DecryptEcb (after (aes256EncryptEcb ctx₁ buf).1 between) (aes256EncryptEcb ctx₁ buf).2).2 = buf ∧
      (aes256EncryptEcb (after (aes256DecryptEcb ctx₁ buf).1 between) (aes256DecryptEcb ctx₁ buf).2).2 = buf := by
  intro ctx₁
  have hkeyed : Keyed k ctx₁ := Keyed.after (holds_aes256Init ctx k) before
  constructor
  · obtain ⟨hkeyed₁, hout⟩ := hkeyed.exec (Call.encrypt buf)
    obtain ⟨-, hback⟩ := (hkeyed₁.after between).exec (Call.decrypt (aes256EncryptEcb ctx₁ buf).2)
    apply stateOf_injective
    refine hback.trans ?_
    rw [Call.answer, show stateOf (aes256EncryptEcb ctx₁ buf).2 = _ from hout, Call.answer, invCipher_cipher]
  · obtain ⟨hkeyed₁, hout⟩ := hkeyed.exec (Call.decrypt buf)
    obtain ⟨-, hback⟩ := (hkeyed₁.after between).exec (Call.encrypt (aes256DecryptEcb ctx₁ buf).2)
    apply stateOf_injective
    refine hback.trans ?_
    rw [Call.answer, show stateOf (aes256DecryptEcb ctx₁ buf).2 = _ from hout, Call.answer, cipher_invCipher]

end Aes

end CoActionOS
