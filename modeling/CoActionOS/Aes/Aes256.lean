import Mathlib.Data.Fin.Basic
import Mathlib.Data.List.FinRange

/-!
# AES-256

`aes256.c`, without its tables.  Bytes are changed in place: a loop is a fold over the places it goes through, in its order.
-/

namespace CoActionOS

namespace Aes

abbrev Byte := BitVec 8
abbrev Block := Vector Byte 16
abbrev KeyBytes := Vector Byte 32

/-! ### Bytes -/

/-- The body of the loops of `gf_alog` and `gf_log`. -/
def gfStep (atb : Byte) : Byte :=
  let z := atb
  let atb := atb <<< 1
  let atb := if z &&& 0x80 ≠ 0 then atb ^^^ 0x1b else atb
  atb ^^^ z

/-- `while (x--)` -/
def gfAlogLoop : Nat → Byte → Byte
  | 0, atb => atb
  | x + 1, atb => gfAlogLoop x (gfStep atb)

/-- `gf_alog` -/
def gfAlog (x : Byte) : Byte := gfAlogLoop x.toNat 1

/-- `do ... while (++i > 0)`: the count comes back to zero after 256 passes. -/
def gfLogLoop (x : Byte) : Nat → Byte → Byte → Byte
  | 0, _, i => i
  | n + 1, atb, i =>
    if atb = x then i
    else if i + 1 > 0 then gfLogLoop x n (gfStep atb) (i + 1) else i + 1

/-- `gf_log` -/
def gfLog (x : Byte) : Byte := gfLogLoop x 256 1 0

/-- `gf_mulinv` -/
def gfMulinv (x : Byte) : Byte := if x ≠ 0 then gfAlog (255 - gfLog x) else 0

/-- What `rj_sbox` does with the inverse. -/
def sboxRotations (y : Byte) : Byte :=
  let sb := y
  let y := (y <<< 1) ||| (y >>> 7)
  let sb := sb ^^^ y
  let y := (y <<< 1) ||| (y >>> 7)
  let sb := sb ^^^ y
  let y := (y <<< 1) ||| (y >>> 7)
  let sb := sb ^^^ y
  let y := (y <<< 1) ||| (y >>> 7)
  let sb := sb ^^^ y
  sb ^^^ 0x63

/-- `rj_sbox` -/
def rjSbox (x : Byte) : Byte := sboxRotations (gfMulinv x)

/-- What `rj_sbox_inv` does before it takes the inverse. -/
def sboxInvRotations (x : Byte) : Byte :=
  let y := x ^^^ 0x63
  let y := (y <<< 1) ||| (y >>> 7)
  let sb := y
  let y := (y <<< 2) ||| (y >>> 6)
  let sb := sb ^^^ y
  let y := (y <<< 3) ||| (y >>> 5)
  sb ^^^ y

/-- `rj_sbox_inv` -/
def rjSboxInv (x : Byte) : Byte := gfMulinv (sboxInvRotations x)

/-- `rj_xtime` -/
def rjXtime (x : Byte) : Byte :=
  if x &&& 0x80 ≠ 0 then (x <<< 1) ^^^ 0x1b else x <<< 1

/-- `F` -/
def F (x : Byte) : Byte := (x <<< 1) ^^^ (((x >>> 7) &&& 1) * 0x1b)

/-- `FD` -/
def FD (x : Byte) : Byte := (x >>> 1) ^^^ (if x &&& 1 ≠ 0 then 0x8d else 0)

/-! ### Blocks -/

/-- `while (i--) buf[i] = ...` -/
def each {n : Nat} (buf : Vector Byte n) (f : Fin n → Byte → Byte) : Vector Byte n :=
  Fin.foldr n (fun i buf => buf.set i (f i buf[i])) buf

theorem getElem_foldr_set {n : Nat} (f : Fin n → Byte → Byte) {l : List (Fin n)} (hl : l.Nodup) (v : Vector Byte n)
    (j : Fin n) : (l.foldr (fun i v => v.set i (f i v[i])) v)[j] = if j ∈ l then f j v[j] else v[j] := by
  induction l with
  | nil => rfl
  | cons i l ih =>
    rw [List.nodup_cons] at hl
    have hset : ∀ u : Vector Byte n, (u.set i (f i u[i]))[j] = if i = j then f j u[j] else u[j] := by
      intro u
      by_cases hij : i = j
      · subst hij
        simp
      · rw [if_neg hij]
        exact Vector.getElem_set_ne i.isLt j.isLt (fun h => hij (Fin.ext h))
    rw [List.foldr_cons, hset, ih hl.2]
    by_cases hij : i = j
    · subst hij
      simp [hl.1]
    · simp [hij, Ne.symm hij]

/-- `aes_subBytes` -/
def aesSubBytes (buf : Block) : Block := each buf fun _ x => rjSbox x

/-- `aes_subBytes_inv` -/
def aesSubBytesInv (buf : Block) : Block := each buf fun _ x => rjSboxInv x

/-- `aes_addRoundKey`; `start` is where `key` points. -/
def aesAddRoundKey (buf : Block) (key : KeyBytes) (start : Fin 17) : Block :=
  each buf fun i x => x ^^^ key[start.val + i.val]

/-- The body of the loop of `aes_addRoundKey_cpy`. -/
def copyAndAdd (key : KeyBytes) (i : Fin 16) : Block × KeyBytes → Block × KeyBytes
  | (buf, cpk) =>
    let cpk := cpk.set i.val key[i.val]
    let buf := buf.set i (buf[i] ^^^ cpk[i.val])
    (buf, cpk.set (16 + i.val) key[16 + i.val])

theorem copyAndAdd_foldr (buf : Block) (key cpk : KeyBytes) (l : List (Fin 16)) :
    l.foldr (copyAndAdd key) (buf, cpk) =
      (l.foldr (fun i v => v.set i (v[i] ^^^ key[i.val])) buf,
        Vector.ofFn fun q : Fin 32 => if ∃ i ∈ l, q.val = i.val ∨ q.val = 16 + i.val then key[q] else cpk[q]) := by
  induction l with
  | nil => exact Prod.ext rfl (by ext1 q hq; simp)
  | cons i l ih =>
    rw [List.foldr_cons, ih, copyAndAdd]
    refine Prod.ext ?_ ?_
    · simp only [Vector.getElem_set_self]
      rfl
    · ext1 q hq
      simp only [Vector.getElem_set, Vector.getElem_ofFn, List.exists_mem_cons_iff]
      by_cases hhigh : 16 + i.val = q
      · subst hhigh
        simp
      · by_cases hlow : i.val = q
        · subst hlow
          simp
        · simp [hhigh, hlow, Ne.symm hhigh, Ne.symm hlow]

/-- `aes_addRoundKey_cpy` -/
def aesAddRoundKeyCpy (buf : Block) (key cpk : KeyBytes) : Block × KeyBytes :=
  Fin.foldr 16 (copyAndAdd key) (buf, cpk)

/-- `aes_shiftRows` -/
def aesShiftRows (buf : Block) : Block :=
  let i := buf[1]
  let buf := buf.set 1 buf[5]
  let buf := buf.set 5 buf[9]
  let buf := buf.set 9 buf[13]
  let buf := buf.set 13 i
  let i := buf[10]
  let buf := buf.set 10 buf[2]
  let buf := buf.set 2 i
  let j := buf[3]
  let buf := buf.set 3 buf[15]
  let buf := buf.set 15 buf[11]
  let buf := buf.set 11 buf[7]
  let buf := buf.set 7 j
  let j := buf[14]
  let buf := buf.set 14 buf[6]
  buf.set 6 j

/-- `aes_shiftRows_inv` -/
def aesShiftRowsInv (buf : Block) : Block :=
  let i := buf[1]
  let buf := buf.set 1 buf[13]
  let buf := buf.set 13 buf[9]
  let buf := buf.set 9 buf[5]
  let buf := buf.set 5 i
  let i := buf[2]
  let buf := buf.set 2 buf[10]
  let buf := buf.set 10 i
  let j := buf[3]
  let buf := buf.set 3 buf[7]
  let buf := buf.set 7 buf[11]
  let buf := buf.set 11 buf[15]
  let buf := buf.set 15 j
  let j := buf[6]
  let buf := buf.set 6 buf[14]
  buf.set 14 j

/-- The body of the loop of `aes_mixColumns`. -/
def mixColumn (buf : Block) (i : Fin 13) : Block :=
  let a := buf[i.val]
  let b := buf[i.val + 1]
  let c := buf[i.val + 2]
  let d := buf[i.val + 3]
  let e := a ^^^ b ^^^ c ^^^ d
  let buf := buf.set i.val (buf[i.val] ^^^ (e ^^^ rjXtime (a ^^^ b)))
  let buf := buf.set (i.val + 1) (buf[i.val + 1] ^^^ (e ^^^ rjXtime (b ^^^ c)))
  let buf := buf.set (i.val + 2) (buf[i.val + 2] ^^^ (e ^^^ rjXtime (c ^^^ d)))
  buf.set (i.val + 3) (buf[i.val + 3] ^^^ (e ^^^ rjXtime (d ^^^ a)))

/-- `aes_mixColumns` -/
def aesMixColumns (buf : Block) : Block := [0, 4, 8, 12].foldl mixColumn buf

/-- The body of the loop of `aes_mixColumns_inv`. -/
def mixColumnInv (buf : Block) (i : Fin 13) : Block :=
  let a := buf[i.val]
  let b := buf[i.val + 1]
  let c := buf[i.val + 2]
  let d := buf[i.val + 3]
  let e := a ^^^ b ^^^ c ^^^ d
  let z := rjXtime e
  let x := e ^^^ rjXtime (rjXtime (z ^^^ a ^^^ c))
  let y := e ^^^ rjXtime (rjXtime (z ^^^ b ^^^ d))
  let buf := buf.set i.val (buf[i.val] ^^^ (x ^^^ rjXtime (a ^^^ b)))
  let buf := buf.set (i.val + 1) (buf[i.val + 1] ^^^ (y ^^^ rjXtime (b ^^^ c)))
  let buf := buf.set (i.val + 2) (buf[i.val + 2] ^^^ (x ^^^ rjXtime (c ^^^ d)))
  buf.set (i.val + 3) (buf[i.val + 3] ^^^ (y ^^^ rjXtime (d ^^^ a)))

/-- `aes_mixColumns_inv` -/
def aesMixColumnsInv (buf : Block) : Block := [0, 4, 8, 12].foldl mixColumnInv buf

/-! ### Keys -/

/-- `k[i] ^= k[i-4]`, and the three bytes after it -/
def xorPrevious (k : KeyBytes) (i : Fin 29) : KeyBytes :=
  let k := k.set i.val (k[i.val] ^^^ k[i.val - 4])
  let k := k.set (i.val + 1) (k[i.val + 1] ^^^ k[i.val - 3])
  let k := k.set (i.val + 2) (k[i.val + 2] ^^^ k[i.val - 2])
  k.set (i.val + 3) (k[i.val + 3] ^^^ k[i.val - 1])

/-- What both expansions do to `k[0]` up to `k[3]`. -/
def xorFirst (k : KeyBytes) (rc : Byte) : KeyBytes :=
  let k := k.set 0 (k[0] ^^^ (rjSbox k[29] ^^^ rc))
  let k := k.set 1 (k[1] ^^^ rjSbox k[30])
  let k := k.set 2 (k[2] ^^^ rjSbox k[31])
  k.set 3 (k[3] ^^^ rjSbox k[28])

/-- What both expansions do to `k[16]` up to `k[19]`. -/
def xorMiddle (k : KeyBytes) : KeyBytes :=
  let k := k.set 16 (k[16] ^^^ rjSbox k[12])
  let k := k.set 17 (k[17] ^^^ rjSbox k[13])
  let k := k.set 18 (k[18] ^^^ rjSbox k[14])
  k.set 19 (k[19] ^^^ rjSbox k[15])

/-- `aes_expandEncKey` -/
def aesExpandEncKey (k : KeyBytes) (rc : Byte) : KeyBytes × Byte :=
  let k := xorFirst k rc
  let rc := F rc
  let k := [4, 8, 12].foldl xorPrevious k
  let k := xorMiddle k
  ([20, 24, 28].foldl xorPrevious k, rc)

/-- `aes_expandDecKey` -/
def aesExpandDecKey (k : KeyBytes) (rc : Byte) : KeyBytes × Byte :=
  let k := [28, 24, 20].foldl xorPrevious k
  let k := xorMiddle k
  let k := [12, 8, 4].foldl xorPrevious k
  let rc := FD rc
  (xorFirst k rc, rc)

/-! ### Contexts -/

/-- `aes256_context` -/
structure Aes256Context where
  key : KeyBytes
  enckey : KeyBytes
  deckey : KeyBytes
  deriving DecidableEq, Repr

/-- `aes256_init` -/
def aes256Init (ctx : Aes256Context) (k : KeyBytes) : Aes256Context :=
  let ctx := { ctx with enckey := k, deckey := k }
  let (deckey, _) := (List.range 7).foldl (fun (k, rcon) _ => aesExpandEncKey k rcon) (ctx.deckey, 1)
  { ctx with deckey }

/-- `aes256_done` -/
def aes256Done (_ctx : Aes256Context) : Aes256Context :=
  { key := .replicate 32 0, enckey := .replicate 32 0, deckey := .replicate 32 0 }

/-- The body of the loop of `aes256_encrypt_ecb`, with the block, `ctx->key` and `rcon`. -/
def encryptRound : Block × KeyBytes × Byte → Nat → Block × KeyBytes × Byte
  | (buf, key, rcon), i =>
    let buf := aesMixColumns (aesShiftRows (aesSubBytes buf))
    if i % 2 = 1 then (aesAddRoundKey buf key 16, key, rcon)
    else
      let (key, rcon) := aesExpandEncKey key rcon
      (aesAddRoundKey buf key 0, key, rcon)

/-- `aes256_encrypt_ecb` -/
def aes256EncryptEcb (ctx : Aes256Context) (buf : Block) : Aes256Context × Block :=
  let (buf, key) := aesAddRoundKeyCpy buf ctx.enckey ctx.key
  let (buf, key, rcon) := (List.range' 1 13).foldl encryptRound (buf, key, 1)
  let buf := aesShiftRows (aesSubBytes buf)
  let (key, _) := aesExpandEncKey key rcon
  ({ ctx with key }, aesAddRoundKey buf key 0)

/-- The body of the loop of `aes256_decrypt_ecb`. -/
def decryptRound : Block × KeyBytes × Byte → Nat → Block × KeyBytes × Byte
  | (buf, key, rcon), i =>
    let (buf, key, rcon) :=
      if i % 2 = 1 then
        let (key, rcon) := aesExpandDecKey key rcon
        (aesAddRoundKey buf key 16, key, rcon)
      else (aesAddRoundKey buf key 0, key, rcon)
    (aesSubBytesInv (aesShiftRowsInv (aesMixColumnsInv buf)), key, rcon)

/-- `aes256_decrypt_ecb` -/
def aes256DecryptEcb (ctx : Aes256Context) (buf : Block) : Aes256Context × Block :=
  let (buf, key) := aesAddRoundKeyCpy buf ctx.deckey ctx.key
  let buf := aesSubBytesInv (aesShiftRowsInv buf)
  let (buf, key, _) := (List.range' 1 13).reverse.foldl decryptRound (buf, key, 0x80)
  ({ ctx with key }, aesAddRoundKey buf key 0)

end Aes

end CoActionOS
