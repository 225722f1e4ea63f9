import CoActionOS.Lib.Pieces
import CoActionOS.Link.Local

/-!
# Copying a file

`Link::cp` copies in parts of 128 bytes and says by its result whether the operations have failed.  To the device it counts
what `link_write` returns, which is nothing but what the device has replied; from the device it asks only whether anything
came, so an error, a short read and a stop by the callback all end the copying as the end of the file does.

`cp_iff` says in which copies a zero is never wrong.
-/

namespace CoActionOS

namespace Link

open Proc DeviceSystem

/-! ### The code -/

/-- `bufferSize` of `Link::cp` -/
def cpBufferSize : Nat := 128

/-- The transfers of an operation: one of them fails, and `link_handle_err` has made this of it, or the reply has come. -/
inductive Exchange
  | failed (err : { e : Int // e < 0 })
  | replied (err : Word)

/-- What `link_open`, `link_write` and `link_close` return. -/
def Exchange.ret : Exchange → Int
  | failed err => err
  | replied err => orDevError err

/-- What `link_read` returns, and what it has put into the buffer of the part of the file that was asked for: the device
replies with the number of bytes it has sent. -/
def Exchange.read (part : List UInt8) : Exchange → Int × List UInt8
  | failed err => (err, [])
  | replied err => if isNegative err then (err.toInt, []) else ((part.take err.toNat).length, part.take err.toNat)

/-- A write: its exchange, and how many of the bytes the device has stored. -/
structure WriteStep where
  exchange : Exchange
  stored : Nat

/-- What the operations of a copy find; `update` is called with the progress, or is null. -/
structure Course where
  isBoot : Bool
  /-- What `link_stat` returns. -/
  stat : Int
  opened : Exchange
  reads : Nat → Exchange
  writes : Nat → WriteStep
  closed : Exchange
  update : Option (Nat → Nat → Bool)
  /-- `st.st_size` -/
  size : Nat

/-- A file in parts, as reads of the buffer's size give it. -/
def parts (file : List UInt8) : List (List UInt8) :=
  Pieces.pieces cpBufferSize ((file.length + (cpBufferSize - 1)) / cpBufferSize) file

section

variable (c : Course)

/-- The callback asks to stop. -/
def Course.stops (progress max : Nat) : Bool := c.update.any fun update => update progress max

/-- The loop that writes: `err` at its end, and what the file on the device has become. -/
def cpWriteLoop (max : Nat) : (i progress : Nat) → (parts : List (List UInt8)) → (dest : List UInt8) → Int × List UInt8
  | _, _, [], dest => (0, dest)
  | i, progress, part :: parts, dest =>
    let err := (c.writes i).exchange.ret
    let dest := dest ++ part.take (c.writes i).stored
    if err ≠ part.length then (if err > 0 then -1 else err, dest)
    else if c.stops (progress + part.length) max then (err, dest)
    else cpWriteLoop max (i + 1) (progress + part.length) parts dest

/-- `Link::cp` to the device: the result, and the file on the device. -/
def cpToDevice (src : List UInt8) : Int × List UInt8 :=
  if c.opened.ret > 0 then
    match cpWriteLoop c src.length 0 0 (parts src) [] with
    | (err, dest) =>
      if err = linkTransferErr then (-2, dest)
      else if c.closed.ret ≠ 0 then (-1, dest)
      else (err, dest)
  else if c.opened.ret = linkTransferErr then (-2, [])
  else (-1, [])

/-- The loop that reads: what the file on the host has become. -/
def cpReadLoop : (i progress : Nat) → (parts : List (List UInt8)) → (dest : List UInt8) → List UInt8
  | _, _, [], dest => dest
  | i, progress, part :: parts, dest =>
    match (c.reads i).read part with
    | (bytesRead, buffer) =>
      if bytesRead > 0 then
        let dest := dest ++ buffer
        if bytesRead < cpBufferSize then dest
        else if c.stops (progress + buffer.length) c.size then dest
        else cpReadLoop (i + 1) (progress + buffer.length) parts dest
      else dest

/-- `Link::cp` from the device: the result, and the file on the host. -/
def cpFromDevice (src : List UInt8) : Int × List UInt8 :=
  if c.stat < 0 then (-1, [])
  else if c.opened.ret > 0 then
    let dest := cpReadLoop c 0 0 (parts src) []
    if c.closed.ret ≠ 0 then (if c.closed.ret = linkTransferErr then -2 else -1, dest)
    else (0, dest)
  else if c.opened.ret = linkTransferErr then (-2, [])
  else (-1, [])

/-- `Link::cp` -/
def cp (toDevice : Bool) (src : List UInt8) : Int × List UInt8 :=
  if c.isBoot then (-1, [])
  else if toDevice then cpToDevice c src
  else cpFromDevice c src

/-! ### The statement -/

/-- Zero is returned only for a copy that is the file. -/
def ReportsTruncation (toDevice : Bool) (src : List UInt8) : Prop :=
  (cp c toDevice src).1 = 0 → (cp c toDevice src).2 = src

/-- A write is seen to go wrong, or the callback stops the copy, before any write has returned zero. -/
def Noticed (max : Nat) : (i progress : Nat) → List (List UInt8) → Prop
  | _, _, [] => False
  | i, progress, part :: parts =>
    let err := (c.writes i).exchange.ret
    if err = part.length then
      c.stops (progress + part.length) max = true ∨ Noticed max (i + 1) (progress + part.length) parts
    else err ≠ 0

/-- Each part is stored whole, and its size is returned but perhaps for the last. -/
def Stored : (i : Nat) → List (List UInt8) → Prop
  | _, [] => True
  | i, part :: parts =>
    part.length ≤ (c.writes i).stored ∧
      (parts ≠ [] → (c.writes i).exchange.ret = part.length ∧ Stored (i + 1) parts)

/-- Each read brings the whole part, and the callback does not stop the copy between two parts. -/
def Brought (max : Nat) : (i progress : Nat) → List (List UInt8) → Prop
  | _, _, [] => True
  | i, progress, part :: parts =>
    (∃ err, c.reads i = .replied err ∧ isNegative err = false ∧ part.length ≤ err.toNat) ∧
      (parts ≠ [] → c.stops (progress + part.length) max = false ∧ Brought max (i + 1) (progress + part.length) parts)

/-- The file cannot be opened or closed. -/
def Course.fails : Prop := c.isBoot = true ∨ c.opened.ret ≤ 0 ∨ c.closed.ret ≠ 0

/-- When a zero is never wrong. -/
def Safe (toDevice : Bool) (src : List UInt8) : Prop :=
  c.fails ∨
    if toDevice then Noticed c src.length 0 0 (parts src) ∨ Stored c 0 (parts src)
    else c.stat < 0 ∨ Brought c c.size 0 0 (parts src)

end

/-! ### The operations of the link -/

section

variable {Q : HostRet → Prop} {k : Host HostRet}

theorem always_sendEmpty (tries : Nat) : (sendEmpty tries).Always (fun _ => True) (· < 0) := by
  induction tries with
  | zero => exact show linkPhyError < 0 by decide
  | succ tries ih =>
    refine (Proc.always_true (linkProtocolMasterwrite [] 0 : Host Int)).bind fun err _ => ?_
    split_ifs
    · exact show linkPhyError < 0 by decide
    · exact show linkProtError < 0 by decide
    · exact ih

/-- A failed transfer is always reported as an error. -/
theorem always_handle (err : Int) (hQ : ∀ r, r.ret < 0 → Q r) : (OnFailure.handle.run err).Always (fun _ => True) Q := by
  have hneg : (linkHandleErr err).Always (fun _ => True) (· < 0) := by
    show Proc.Always _ (if err = linkProtError then _ else _ : Host Int) _
    split_ifs with hprot hdev
    · exact always_sendEmpty _
    · exact show err < 0 by rw [hdev]; decide
    · exact show linkPhyError < 0 by decide
  exact hneg.bind fun err herr => hQ ⟨err, none, []⟩ herr

theorem always_request (op : List UInt8) (hQ : ∀ r, r.ret < 0 → Q r) (hk : k.Always (fun _ => True) Q) :
    (request op .handle k).Always (fun _ => True) Q := by
  refine (Proc.always_true (linkProtocolMasterwrite op op.length : Host Int)).bind fun err _ => ?_
  split_ifs
  · exact always_handle err hQ
  · exact hk

theorem always_readReply {f : LinkReply → Host HostRet} (hQ : ∀ r, r.ret < 0 → Q r)
    (hf : ∀ reply, (f reply).Always (fun _ => True) Q) : (readReply .handle f).Always (fun _ => True) Q := by
  refine (Proc.always_true (linkProtocolMasterread 8 : Host Transfer)).bind fun t _ => ?_
  split_ifs
  · exact always_handle t.ret hQ
  · exact hf _

theorem always_readData {f : List UInt8 → Host HostRet} (nbyte : Int) (hQ : ∀ r, r.ret < 0 → Q r)
    (hf : ∀ data, (f data).Always (fun _ => True) Q) : (readData nbyte .handle f).Always (fun _ => True) Q := by
  refine (Proc.always_true (linkProtocolMasterread nbyte : Host Transfer)).bind fun t _ => ?_
  split_ifs
  · exact always_handle t.ret hQ
  · exact hf _

/-- The results of the operations are those of an exchange, whatever comes over the channel. -/
theorem exists_exchange (junk path buf : List UInt8) (flags mode fildes : Word) (nbyte : Nat) (env : Env Unit) :
    (∃ x : Exchange, ((linkOpen junk path flags mode).run env).value.ret = x.ret) ∧
      (∃ x : Exchange, ((linkWrite junk fildes buf).run env).value.ret = x.ret) ∧
      (∃ x : Exchange, ((linkClose junk fildes).run env).value.ret = x.ret) ∧
      (((linkRead junk fildes nbyte).run env).value.ret < 0 ∨
        ∃ err : Word, ((linkRead junk fildes nbyte).run env).value.ret = err.toInt) := by
  have hfailed : ∀ r : HostRet, r.ret < 0 → ∃ x : Exchange, r.ret = x.ret := fun r hr => ⟨.failed ⟨r.ret, hr⟩, rfl⟩
  have hreported : ∀ reply : LinkReply, (ret (if isNegative reply.err then ⟨linkDevError, some reply.errNumber, []⟩
      else report reply) : Host HostRet).Always (fun _ => True) fun r => ∃ x : Exchange, r.ret = x.ret := by
    intro reply
    refine ⟨.replied reply.err, ?_⟩
    show _ = orDevError reply.err
    unfold orDevError
    split_ifs <;> rfl
  refine ⟨?_, ?_, ?_, ?_⟩
  · refine (Always.run (always_request _ hfailed (always_request _ hfailed (always_readReply hfailed ?_))) env).2
    exact fun reply => ⟨.replied reply.err, rfl⟩
  · exact (Always.run (always_request _ hfailed (always_request _ hfailed (always_readReply hfailed hreported))) env).2
  · exact (Always.run (always_request _ hfailed (always_readReply hfailed hreported)) env).2
  · refine (Always.run (Q := fun r => r.ret < 0 ∨ ∃ err : Word, r.ret = err.toInt) (always_request _ (fun _ => Or.inl)
      (always_readData nbyte (fun _ => Or.inl) fun data => always_readReply (fun _ => Or.inl) ?_)) env).2
    exact fun reply => Or.inr ⟨reply.err, rfl⟩

end

/-! ### Parts -/

/-- No part is empty, and all but the last are as long as the buffer. -/
def Whole : List (List UInt8) → Prop
  | [] => True
  | part :: parts => part ≠ [] ∧ part.length ≤ cpBufferSize ∧ (parts ≠ [] → part.length = cpBufferSize) ∧ Whole parts

theorem flatten_parts (file : List UInt8) : (parts file).flatten = file := by
  unfold parts
  rw [Pieces.flatten_pieces]
  apply List.take_of_length_le
  unfold cpBufferSize
  omega

theorem whole_pieces (k : Nat) (file : List UInt8) (hk : k = (file.length + (cpBufferSize - 1)) / cpBufferSize) :
    Whole (Pieces.pieces cpBufferSize k file) := by
  induction k generalizing file with
  | zero => trivial
  | succ k ih =>
    unfold cpBufferSize at hk
    have hlength : (file.take cpBufferSize).length = min cpBufferSize file.length := List.length_take
    refine ⟨List.ne_nil_of_length_pos ?_, ?_, fun hne => ?_, ih _ ?_⟩
    · rw [hlength]
      unfold cpBufferSize
      omega
    · rw [hlength]
      exact Nat.min_le_left _ _
    · have hpos : 0 < k := by
        rw [← (Pieces.length_pieces : (Pieces.pieces cpBufferSize k (file.drop cpBufferSize)).length = k)]
        exact List.length_pos_of_ne_nil hne
      rw [hlength]
      unfold cpBufferSize
      omega
    · rw [List.length_drop]
      unfold cpBufferSize
      omega

theorem whole_parts (file : List UInt8) : Whole (parts file) := whole_pieces _ _ rfl

/-! ### To the device -/

variable {c : Course} {max i progress : Nat} {ps : List (List UInt8)} {dest : List UInt8}

/-- The loop reports what is noticed, and nothing else. -/
theorem cpWriteLoop_ret_eq_zero_iff (c : Course) (max i progress : Nat) (dest : List UInt8) (hps : Whole ps) :
    (cpWriteLoop c max i progress ps dest).1 = 0 ↔ ¬ Noticed c max i progress ps := by
  induction ps generalizing i progress dest with
  | nil => exact iff_of_true rfl id
  | cons part ps ih =>
    obtain ⟨hne, -, -, hps⟩ := hps
    have hpos := List.length_pos_of_ne_nil hne
    unfold cpWriteLoop Noticed
    dsimp only
    by_cases herr : (c.writes i).exchange.ret = part.length
    · rw [if_neg (not_not_intro herr), if_pos herr]
      cases hstop : c.stops (progress + part.length) max with
      | true =>
        refine iff_of_false ?_ fun h => h (Or.inl rfl)
        rw [if_pos rfl]
        show (c.writes i).exchange.ret ≠ 0
        omega
      | false =>
        rw [if_neg Bool.false_ne_true, ih _ _ _ hps, or_iff_right Bool.false_ne_true]
    · rw [if_pos herr, if_neg herr, not_not]
      dsimp only
      split_ifs with hlt
      · exact iff_of_false (by decide) (by omega)
      · rfl

theorem length_cpWriteLoop_le :
    (cpWriteLoop c max i progress ps dest).2.length ≤ dest.length + ps.flatten.length := by
  induction ps generalizing i progress dest with
  | nil => exact Nat.le_add_right _ _
  | cons part ps ih =>
    have hpart : (dest ++ part.take (c.writes i).stored).length ≤ dest.length + part.length := by
      rw [List.length_append, List.length_take]
      omega
    have hrest : (cpWriteLoop c max (i + 1) (progress + part.length) ps
        (dest ++ part.take (c.writes i).stored)).2.length ≤ _ := ih
    rw [List.flatten_cons, List.length_append]
    unfold cpWriteLoop
    dsimp only
    split_ifs
    · exact Nat.le_trans hpart (by omega)
    · exact Nat.le_trans hpart (by omega)
    · exact Nat.le_trans hpart (by omega)
    · exact Nat.le_trans hrest (by omega)

/-- Where nothing is noticed the device has the file exactly if each part is stored. -/
theorem cpWriteLoop_dest_iff (c : Course) (max i progress : Nat) (dest : List UInt8) (hps : Whole ps) (hnot : ¬ Noticed c max i progress ps) :
    (cpWriteLoop c max i progress ps dest).2 = dest ++ ps.flatten ↔ Stored c i ps := by
  induction ps generalizing i progress dest with
  | nil => exact iff_of_true (List.append_nil dest).symm trivial
  | cons part ps ih =>
    obtain ⟨hne, -, -, hps⟩ := hps
    have hpos := List.length_pos_of_ne_nil hne
    have htake : (part.take (c.writes i).stored).length = min (c.writes i).stored part.length := List.length_take
    have hle : (cpWriteLoop c max (i + 1) (progress + part.length) ps (dest ++ part.take (c.writes i).stored)).2.length ≤ _ :=
      length_cpWriteLoop_le
    rw [List.length_append, htake] at hle
    unfold Noticed at hnot
    unfold cpWriteLoop Stored
    dsimp only at hnot ⊢
    rw [List.flatten_cons]
    by_cases herr : (c.writes i).exchange.ret = part.length
    · rw [if_pos herr, not_or] at hnot
      rw [if_neg (not_not_intro herr), if_neg hnot.1]
      by_cases hstored : part.length ≤ (c.writes i).stored
      -- the part is stored: what comes of the copy is decided by the rest
      · rw [List.take_of_length_le hstored, ← List.append_assoc, ih _ _ _ hps hnot.2]
        refine ⟨fun h => ⟨hstored, fun _ => ⟨herr, h⟩⟩, fun h => ?_⟩
        cases ps with
        | nil => trivial
        | cons part' ps => exact (h.2 (List.cons_ne_nil _ _)).2
      · -- what is missing never comes
        refine iff_of_false (fun heq => ?_) fun h => hstored h.1
        rw [heq] at hle
        simp only [List.length_append] at hle
        omega
    -- the copy ends with this part
    · rw [if_neg herr, not_not] at hnot
      rw [if_pos herr]
      dsimp only
      constructor
      · intro heq
        have hlength := congrArg List.length heq
        rw [List.length_append, htake, List.length_append, List.length_append] at hlength
        refine ⟨by omega, fun hmore => ?_⟩
        cases ps with
        | nil => exact absurd rfl hmore
        | cons part' ps =>
          have hpos' := List.length_pos_of_ne_nil hps.1
          rw [List.flatten_cons, List.length_append] at hlength
          omega
      · rintro ⟨hstored, hlast⟩
        have hnil : ps = [] := by
          by_contra hmore
          exact herr (hlast hmore).1
        rw [hnil, List.take_of_length_le hstored, List.flatten_nil, List.append_nil]

/-! ### From the device -/

theorem length_cpReadLoop_le : (cpReadLoop c i progress ps dest).length ≤ dest.length + ps.flatten.length := by
  induction ps generalizing i progress dest with
  | nil => exact Nat.le_add_right _ _
  | cons part ps ih =>
    have hread : ((c.reads i).read part).2.length ≤ part.length := by
      unfold Exchange.read
      split
      · exact Nat.zero_le _
      · split_ifs
        · exact Nat.zero_le _
        · rw [List.length_take]
          exact Nat.min_le_right _ _
    rw [List.flatten_cons, List.length_append]
    unfold cpReadLoop
    generalize (c.reads i).read part = r at hread ⊢
    obtain ⟨bytesRead, buffer⟩ := r
    have hbuffer : (dest ++ buffer).length ≤ dest.length + part.length := by
      rw [List.length_append]
      exact Nat.add_le_add_left hread _
    have hrest : (cpReadLoop c (i + 1) (progress + buffer.length) ps (dest ++ buffer)).length ≤ _ := ih
    dsimp only
    split_ifs
    · exact Nat.le_trans hbuffer (by omega)
    · exact Nat.le_trans hbuffer (by omega)
    · exact Nat.le_trans hrest (by omega)
    · exact Nat.le_add_right _ _

theorem read_of_negative {err : Word} (part : List UInt8) (h : isNegative err = true) :
    (Exchange.replied err).read part = (err.toInt, []) := if_pos h

theorem read_of_nonneg {err : Word} (part : List UInt8) (h : isNegative err = false) :
    (Exchange.replied err).read part = (((part.take err.toNat).length : Int), part.take err.toNat) :=
  if_neg (Bool.eq_false_iff.mp h)

/-- The host has the file exactly if each part has come. -/
theorem cpReadLoop_iff (c : Course) (i progress : Nat) (dest : List UInt8) (hps : Whole ps) :
    cpReadLoop c i progress ps dest = dest ++ ps.flatten ↔ Brought c c.size i progress ps := by
  induction ps generalizing i progress dest with
  | nil => exact iff_of_true (List.append_nil dest).symm trivial
  | cons part ps ih =>
    obtain ⟨hne, hle, hfull, hps⟩ := hps
    have hpos := List.length_pos_of_ne_nil hne
    -- a copy that is too short is not the file
    have hmissing : ∀ k : List UInt8, k.length < part.length → dest ++ k ≠ dest ++ (part ++ ps.flatten) := by
      intro k hk heq
      have hlength := congrArg List.length heq
      simp only [List.length_append] at hlength
      omega
    -- the parts that do not come are not empty
    have hlast : ∀ ps' : List (List UInt8), Whole ps' → dest ++ part = dest ++ (part ++ ps'.flatten) → ps' = [] := by
      intro ps' hwhole heq
      cases ps' with
      | nil => rfl
      | cons part' ps' =>
        have hpos' := List.length_pos_of_ne_nil hwhole.1
        have hlength := congrArg List.length heq
        simp only [List.length_append, List.flatten_cons] at hlength
        omega
    rw [List.flatten_cons]
    unfold cpReadLoop Brought
    by_cases hcomes : ∃ err, c.reads i = .replied err ∧ isNegative err = false ∧ part.length ≤ err.toNat
    -- the part comes whole
    · obtain ⟨err, hread, hneg, hlong⟩ := hcomes
      have hvalue : (c.reads i).read part = ((part.length : Int), part) := by
        rw [hread, read_of_nonneg part hneg, List.take_of_length_le hlong]
      rw [hvalue, and_iff_right ⟨err, hread, hneg, hlong⟩]
      dsimp only
      rw [if_pos (by omega)]
      by_cases hmore : ps = []
      · subst hmore
        refine iff_of_true ?_ fun h => absurd rfl h
        rw [List.flatten_nil, List.append_nil]
        split_ifs <;> rfl
      · have hsize := hfull hmore
        rw [if_neg (by omega), imp_iff_right hmore]
        cases hstop : c.stops (progress + part.length) c.size with
        | true =>
          rw [if_pos rfl]
          exact iff_of_false (fun heq => hmore (hlast ps hps heq)) fun h => absurd h.1 (by decide)
        | false => rw [if_neg Bool.false_ne_true, ← List.append_assoc, ih _ _ _ hps, and_iff_right rfl]
    · refine iff_of_false (fun heq => ?_) fun h => hcomes h.1
      -- otherwise the copy ends with less than the part
      have hnone : dest ≠ dest ++ (part ++ ps.flatten) := by
        have hnil := hmissing [] hpos
        rwa [List.append_nil] at hnil
      cases hread : c.reads i with
      | failed err =>
        have hneg := err.2
        rw [hread] at heq
        unfold Exchange.read at heq
        dsimp only at heq
        rw [if_neg (by omega)] at heq
        exact hnone heq
      | replied err =>
        cases hneg : isNegative err with
        | true =>
          have hlt : err.toInt < 0 := of_decide_eq_true hneg
          rw [hread, read_of_negative part hneg] at heq
          dsimp only at heq
          rw [if_neg (by omega)] at heq
          exact hnone heq
        | false =>
          have hshort : err.toNat < part.length := by
            by_contra hlong
            exact hcomes ⟨err, hread, hneg, Nat.not_lt.mp hlong⟩
          have htake : (part.take err.toNat).length = err.toNat := by
            rw [List.length_take]
            exact Nat.min_eq_left (Nat.le_of_lt hshort)
          rw [hread, read_of_nonneg part hneg] at heq
          dsimp only at heq
          rw [htake] at heq
          split_ifs at heq
          · exact hmissing _ (by omega) heq
          · omega
          · omega
          · exact hnone heq

/-! ### Both directions -/

/-- A zero is never wrong where the copy cannot begin or end, something is noticed, or all goes well. -/
theorem cp_iff (c : Course) (toDevice : Bool) (src : List UInt8) : ReportsTruncation c toDevice src ↔ Safe c toDevice src := by
  have hwhole := whole_parts src
  have hflatten := flatten_parts src
  unfold ReportsTruncation Safe cp
  by_cases hboot : c.isBoot = true
  · rw [if_pos hboot]
    exact iff_of_true (fun h => absurd h (by decide)) (Or.inl (Or.inl hboot))
  rw [if_neg hboot]
  have hfails : c.opened.ret > 0 → ¬ c.closed.ret ≠ 0 → ¬ c.fails := by
    rintro hopened hclosed (h | h | h)
    · exact hboot h
    · omega
    · exact hclosed h
  cases toDevice with
  | true =>
    rw [if_pos rfl, if_pos rfl]
    unfold cpToDevice
    by_cases hopened : c.opened.ret > 0
    · rw [if_pos hopened]
      -- the loop returns zero unless something is noticed
      have hzero := cpWriteLoop_ret_eq_zero_iff c src.length 0 0 [] hwhole
      have hdest := cpWriteLoop_dest_iff c src.length 0 0 [] hwhole
      rw [hflatten, List.nil_append] at hdest
      generalize cpWriteLoop c src.length 0 0 (parts src) [] = r at hzero hdest ⊢
      obtain ⟨err, dest⟩ := r
      dsimp only at hzero hdest ⊢
      by_cases hclosed : c.closed.ret ≠ 0
      · refine iff_of_true ?_ (Or.inl (Or.inr (Or.inr hclosed)))
        split_ifs
        · exact fun h => nomatch h
        · exact fun h => nomatch h
      · rw [or_iff_right (hfails hopened hclosed)]
        by_cases hnoticed : Noticed c src.length 0 0 (parts src)
        · refine iff_of_true (fun h => ?_) (Or.inl hnoticed)
          have herr : err ≠ 0 := fun h => hzero.mp h hnoticed
          rw [if_neg hclosed] at h
          split_ifs at h with htransfer
          · exact nomatch h
          · exact absurd h herr
        · rw [or_iff_right hnoticed, ← hdest hnoticed, hzero.mpr hnoticed, if_neg (by decide), if_neg hclosed]
          exact imp_iff_right rfl
    · rw [if_neg hopened]
      refine iff_of_true ?_ (Or.inl (Or.inr (Or.inl (Int.not_lt.mp hopened))))
      split_ifs
      · exact fun h => nomatch h
      · exact fun h => nomatch h
  | false =>
    rw [if_neg Bool.false_ne_true, if_neg Bool.false_ne_true]
    unfold cpFromDevice
    by_cases hstat : c.stat < 0
    · rw [if_pos hstat]
      exact iff_of_true (fun h => absurd h (by decide)) (Or.inr (Or.inl hstat))
    rw [if_neg hstat]
    by_cases hopened : c.opened.ret > 0
    · rw [if_pos hopened]
      -- nothing but the file that the host has is left to look at
      have hdest := cpReadLoop_iff c 0 0 [] hwhole
      rw [hflatten, List.nil_append] at hdest
      dsimp only
      by_cases hclosed : c.closed.ret ≠ 0
      · refine iff_of_true ?_ (Or.inl (Or.inr (Or.inr hclosed)))
        rw [if_pos hclosed]
        dsimp only
        split_ifs
        · exact fun h => nomatch h
        · exact fun h => nomatch h
      · rw [or_iff_right (hfails hopened hclosed), or_iff_right hstat, ← hdest, if_neg hclosed]
        exact imp_iff_right rfl
    · rw [if_neg hopened]
      refine iff_of_true ?_ (Or.inl (Or.inr (Or.inl (Int.not_lt.mp hopened))))
      split_ifs
      · exact fun h => nomatch h
      · exact fun h => nomatch h

/-- A copy from the device whose first read fails; all else goes well. -/
def failedRead : Course where
  isBoot := false
  stat := 0
  opened := .replied 1
  reads := fun _ => .failed ⟨linkProtError, linkProtError_neg⟩
  writes := fun _ => ⟨.replied 0, 0⟩
  closed := .replied 0
  update := none
  size := 1

/-- An empty file is returned with zero. -/
theorem not_reportsTruncation : ¬ ∀ (c : Course) (toDevice : Bool) (src : List UInt8), ReportsTruncation c toDevice src := by
  intro h
  have hcopy := h failedRead false [0]
  revert hcopy
  unfold ReportsTruncation
  decide

end Link

end CoActionOS
