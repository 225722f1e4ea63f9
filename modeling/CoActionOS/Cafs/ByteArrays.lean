import CoActionOS.Cafs.Calls
import CoActionOS.Cafs.Names

/-!
# Files are arrays of bytes

An `Account` is what the callers know of the files they have open, one array of bytes for each handle, and
`Account.answer` what they expect of the next call.  `byteArrays` says that the file system answers every sequence of
reads and writes, on any number of handles in any order, as expected.  A call that is refused because no block is left
fails, and as long as sections are small the other handles do not notice.
-/

namespace CoActionOS.Cafs

open Cmd

variable {g : Geometry}

/-! ### Files as byte arrays -/

/-- What a caller knows of a file it has open. -/
structure OpenedFile where
  amode : Amode
  bytes : List UInt8

def readAt (f : List UInt8) (loc n : Nat) : List UInt8 := (f.drop loc).take n

def writeAt (f : List UInt8) (loc : Nat) (buf : List UInt8) : List UInt8 :=
  f.take loc ++ buf ++ f.drop (loc + buf.length)

theorem readAt_slice {C : Nat → UInt8} {size loc n : Nat} :
    readAt (slice C 0 size) loc n = slice C loc (min n (size - loc)) := by
  apply List.ext_getElem
  · simp [readAt]
  · intro i h1 h2
    simp only [readAt, List.getElem_take, List.getElem_drop, getElem_slice, Nat.zero_add]

theorem writeAt_slice {C : Nat → UInt8} {size loc : Nat} {buf : List UInt8} (hloc : loc ≤ size) :
    writeAt (slice C 0 size) loc buf = slice (overwrite C loc buf) 0 (max size (loc + buf.length)) := by
  have hhead : (slice C 0 size).take loc = slice (overwrite C loc buf) 0 loc := by
    apply List.ext_getElem
    · simp only [List.length_take, length_slice]
      omega
    · intro i h1 h2
      rw [length_slice] at h2
      rw [List.getElem_take, getElem_slice, getElem_slice, overwrite_of_lt (by omega)]
  have hbody : buf = slice (overwrite C loc buf) loc buf.length := by
    apply List.ext_getElem
    · simp
    · intro i h1 h2
      rw [getElem_slice, overwrite_add h1]
  have htail : (slice C 0 size).drop (loc + buf.length) =
      slice (overwrite C loc buf) (loc + buf.length) (size - (loc + buf.length)) := by
    apply List.ext_getElem
    · simp
    · intro i h1 h2
      rw [List.getElem_drop, getElem_slice, getElem_slice, overwrite_of_lt (by omega), Nat.zero_add]
  have hsize : max size (loc + buf.length) = loc + buf.length + (size - (loc + buf.length)) := by omega
  rw [writeAt, hhead, htail, hsize, slice_add, slice_add, Nat.zero_add, Nat.zero_add, ← hbody]

/-- What the callers know: a byte array for each handle. -/
abbrev Account := Nat → Option OpenedFile

namespace Account

open Function

/-- Where a write starts. -/
def start (f : OpenedFile) (append : Bool) (loc : Int) : Nat := if append then f.bytes.length else loc.toNat

/-- The result of a call if files were byte arrays, and what is known after it. -/
def answer (A : Account) : FsCall → FsRet × Account
  | .read fd loc nbyte =>
    match A fd with
    | none => (.failed none, A)
    | some f =>
      if f.amode.r then
        let bs := readAt f.bytes loc.toNat nbyte.toNat
        (.bytes bs.length bs, A)
      else (.failed (some .eacces), A)
  | .write fd append loc buf =>
    match A fd with
    | none => (.failed none, A)
    | some f =>
      if f.amode.w then
        (.wrote buf.length, update A fd (some { f with bytes := writeAt f.bytes (start f append loc) buf }))
      else (.failed (some .eacces), A)
  | _ => (.failed none, A)

/-- The handle of the call is not relied upon any more. -/
def forget (A : Account) : FsCall → Account
  | .read fd _ _ => update A fd none
  | .write fd _ _ _ => update A fd none
  | _ => A

/-- A read or a write that starts within the file, and does not make it longer than 65535 segments. -/
def Permits (A : Account) : FsCall → Prop
  | .read fd loc nbyte => ∃ f, A fd = some f ∧ 0 ≤ loc ∧ loc ≤ f.bytes.length ∧ 0 ≤ nbyte ∧ loc + nbyte < 2 ^ 31
  | .write fd append loc buf => ∃ f, A fd = some f ∧ start f append loc ≤ f.bytes.length ∧
      (append = false → 0 ≤ loc) ∧ start f append loc + buf.length < blockDataSize * segmentInvalid
  | _ => False

end Account

/-- The file system answers the calls as byte arrays would, except that it may refuse one for want of a block. -/
def Faithful (g : Geometry) : Fs → Account → List FsCall → Prop
  | _, _, [] => True
  | s, A, c :: cs => A.Permits c → ∃ s' r, s.step g c = some (s', some r) ∧
      (r = (A.answer c).1 ∧ Faithful g s' (A.answer c).2 cs ∨
        r = .failed none ∧ .refused ∈ s'.st.log ∧ (SmallSections g → Faithful g s' (A.forget c) cs))

/-! ### The account is right -/

/-- The file behind a handle is the byte array. -/
structure Backed (g : Geometry) (s : St) (sn hdr : Nat) (h : Handle) (f : OpenedFile) : Prop where
  amode : h.amode = f.amode
  serves : ∃ C, Serves g s sn hdr h C ∧ f.bytes = slice C 0 f.bytes.length
  size : h.size = f.bytes.length
  small : f.bytes.length < 122 * 65535

/-- No two handles write a file with the same serial number. -/
structure Table (g : Geometry) (s : Fs) (A : Account) (sn hdr : Nat → Nat) : Prop where
  backed : ∀ fd f, A fd = some f → ∃ h, s.handle fd = some h ∧ Backed g s.st (sn fd) (hdr fd) h f
  apart : ∀ fd fd' f f', A fd = some f → A fd' = some f' → f.amode.w = true → f'.amode.w = true → sn fd = sn fd' →
    fd = fd'

section table

variable {s s' : St} {sn hdr : Nat} {h : Handle} {C : Nat → UInt8} {f : OpenedFile}

theorem Serves.serialno_lt (hs : Serves g s sn hdr h C) : sn < 2 ^ 32 := by
  rw [Serves] at hs
  split_ifs at hs
  · obtain ⟨C₀, ⟨blocks, I, hfile, -⟩, -⟩ := View.medium hs
    rw [← hfile.serialno]
    exact u32_lt _ _
  · obtain ⟨blocks, I, hfile, -⟩ := ReadView.medium hs
    rw [← hfile.serialno]
    exact u32_lt _ _

/-- A call on another file. -/
theorem Serves.extends (hs : Serves g s sn hdr h C) {own : Nat} (he : Extends g own s s')
    (hne : h.amode.w = true → sn ≠ own) : Serves g s' sn hdr h C := by
  rw [Serves] at hs ⊢
  split_ifs at hs ⊢ with hw
  · obtain ⟨C₀, hC₀, hC⟩ := View.medium hs
    exact ⟨he.tidy, View.serialno hs, View.segment hs, ⟨C₀, he.spread_openFile hC₀ (hne hw), hC⟩, View.ram hs⟩
  · exact ⟨he.tidy, ReadView.serialno hs, he.spread_closedFile (ReadView.medium hs), ReadView.saved hs, ReadView.ram hs⟩

theorem Backed.extends (hb : Backed g s sn hdr h f) {own : Nat} (he : Extends g own s s')
    (hne : f.amode.w = true → sn ≠ own) : Backed g s' sn hdr h f := by
  obtain ⟨C, hs, hC⟩ := hb.serves
  exact ⟨hb.amode, ⟨C, hs.extends he fun hw => hne (hb.amode ▸ hw), hC⟩, hb.size, hb.small⟩

end table

section step

variable {s : Fs} {A : Account} {sn hdr : Nat → Nat}

/-- The serial number whose blocks a call on the handle may change; a reader changes none. -/
def ownOf (f : OpenedFile) (sn : Nat) : Nat := if f.amode.w then sn else 2 ^ 32

theorem Table.ne_own (ht : Table g s A sn hdr) {fd fd' : Nat} {f f' : OpenedFile} (hf : A fd = some f)
    (hf' : A fd' = some f') (hne : fd' ≠ fd) (hw : f'.amode.w = true) : sn fd' ≠ ownOf f (sn fd) := by
  rw [ownOf]
  split_ifs with hfw
  · exact fun he => hne (ht.apart fd' fd f' f hf' hf hw hfw he)
  · obtain ⟨h', -, hb⟩ := ht.backed fd' f' hf'
    obtain ⟨C, hs, -⟩ := hb.serves
    have hlt := hs.serialno_lt
    omega

/-- What a call has done to one file, the others have not noticed. -/
theorem Table.update (ht : Table g s A sn hdr) {fd : Nat} {f f' : OpenedFile} {h' : Handle} {s' : St}
    (hf : A fd = some f) (he : Extends g (ownOf f (sn fd)) s.st s') (hw : f'.amode = f.amode)
    (hb : Backed g s' (sn fd) (hdr fd) h' f') :
    Table g { s.setHandle fd (some h') with st := s' } (Function.update A fd (some f')) sn hdr where
  backed fd' x hx := by
    rcases update_eq_some hx with ⟨rfl, hsome⟩ | ⟨hne, hold⟩
    · obtain rfl := Option.some.inj hsome
      exact ⟨h', Function.update_self _ _ _, hb⟩
    · obtain ⟨h, hh, hb'⟩ := ht.backed fd' x hold
      exact ⟨h, (Function.update_of_ne hne _ _).trans hh, hb'.extends he fun hxw => ht.ne_own hf hold hne hxw⟩
  apart i j x y hx hy hxw hyw hsn := by
    have hsame : ∀ k z, Function.update A fd (some f') k = some z → z.amode.w = true →
        ∃ z', A k = some z' ∧ z'.amode.w = true := by
      intro k z hz hzw
      rcases update_eq_some hz with ⟨rfl, hsome⟩ | ⟨-, hold⟩
      · obtain rfl := Option.some.inj hsome
        exact ⟨f, hf, hw ▸ hzw⟩
      · exact ⟨z, hold, hzw⟩
    obtain ⟨x', hx', hxw'⟩ := hsame i x hx hxw
    obtain ⟨y', hy', hyw'⟩ := hsame j y hy hyw
    exact ht.apart i j x' y' hx' hy' hxw' hyw' hsn

/-- What a call has done that ran out of blocks. -/
theorem Table.lose (ht : Table g s A sn hdr) {fd : Nat} {f : OpenedFile} (hf : A fd = some f) {s' : St}
    (he : Extends g (ownOf f (sn fd)) s.st s') (handle : Option Handle) :
    Table g { s.setHandle fd handle with st := s' } (Function.update A fd none) sn hdr where
  backed fd' x hx := by
    rcases update_eq_some hx with ⟨-, hnone⟩ | ⟨hne, hold⟩
    · exact nomatch hnone
    · obtain ⟨h, hh, hb'⟩ := ht.backed fd' x hold
      exact ⟨h, (Function.update_of_ne hne _ _).trans hh, hb'.extends he fun hxw => ht.ne_own hf hold hne hxw⟩
  apart i j x y hx hy hxw hyw hsn := by
    rcases update_eq_some hx with ⟨-, hnone⟩ | ⟨-, hx'⟩
    · exact nomatch hnone
    rcases update_eq_some hy with ⟨-, hnone⟩ | ⟨-, hy'⟩
    · exact nomatch hnone
    exact ht.apart i j x y hx' hy' hxw hyw hsn

theorem RanOut.extends {own : Nat} {st st' : St} (h : RanOut g own st st') (hsmall : SmallSections g) :
    Extends g own st st' := by
  obtain ⟨st₁, h1, hr⟩ := h
  exact h1.trans (Extends.of_refused hsmall hr)

theorem RanOut.refused {own : Nat} {st st' : St} (h : RanOut g own st st') : .refused ∈ st'.log := by
  obtain ⟨st₁, -, hr⟩ := h
  exact hr.refused

/-- How one call is answered. -/
def StepsTo (g : Geometry) (sn hdr : Nat → Nat) (s : Fs) (A : Account) (c : FsCall) : Prop :=
  ∃ s' r, s.step g c = some (s', some r) ∧
    (r = (A.answer c).1 ∧ Table g s' (A.answer c).2 sn hdr ∨
      r = .failed none ∧ .refused ∈ s'.st.log ∧ (SmallSections g → Table g s' (A.forget c) sn hdr))

section steps

variable {fd : Nat} {h h' : Handle} {st : St} {loc nbyte n : Int} {bs buf : List UInt8} {append : Bool}

/-- The file system behind a call on a handle. -/
abbrev after (s : Fs) (fd : Nat) (h' : Handle) (st : St) : Fs := { s.setHandle fd (some h') with st := st }

theorem step_read (hh : s.handle fd = some h) {r : Ret (Int × List UInt8)}
    (hcall : cafsLiteRead g h loc nbyte s.st = .ok (r, h') st) :
    s.step g (.read fd loc nbyte) = some (after s fd h' st, some (match r with
      | .ok (n, bs) => .bytes n bs
      | .error e => .failed e)) := by
  simp only [Fs.step, hh, hcall, Fs.finish]
  cases r <;> rfl

theorem step_write (hh : s.handle fd = some h) {r : Ret Int}
    (hcall : cafsLiteWrite g h append loc buf s.st = .ok (r, h') st) :
    s.step g (.write fd append loc buf) = some (after s fd h' st, some (match r with
      | .ok n => .wrote n
      | .error e => .failed e)) := by
  simp only [Fs.step, hh, hcall, Fs.finish]
  cases r <;> rfl

end steps

/-- The array is as it was. -/
theorem Table.keep (ht : Table g s A sn hdr) {fd : Nat} {f : OpenedFile} {h' : Handle} {s' : St}
    (hf : A fd = some f) (he : Extends g (ownOf f (sn fd)) s.st s') (hb : Backed g s' (sn fd) (hdr fd) h' f) :
    Table g (after s fd h' s') A sn hdr := by
  have hsame : Function.update A fd (some f) = A := by
    rw [← hf]
    exact Function.update_eq_self fd A
  have hupdate := ht.update hf he rfl hb
  rwa [hsame] at hupdate

theorem Answered.backed {α : Type} {own sn hdr size : Nat} {st st' : St} {h : Handle} {a : α} {C : Nat → UInt8}
    {r : Ret α × Handle} {f : OpenedFile} (ha : Answered g own st sn hdr h a C size r st') (hmode : h.amode = f.amode)
    (hsize : size = f.bytes.length) (hsmall : size < 122 * 65535) (hC : f.bytes = slice C 0 f.bytes.length) :
    Backed g st' sn hdr r.2 f :=
  ⟨ha.file.amode.trans hmode, ⟨C, ha.serves, hC⟩, by rw [ha.size, hsize], hsize ▸ hsmall⟩

theorem Table.read (ht : Table g s A sn hdr) {fd loc n : Nat} {f : OpenedFile} (hf : A fd = some f)
    (hloc : loc ≤ f.bytes.length) (hn : loc + n < 2 ^ 31) : StepsTo g sn hdr s A (.read fd loc n) := by
  obtain ⟨h, hh, hb⟩ := ht.backed fd f hf
  obtain ⟨C, hs, hC⟩ := hb.serves
  have hanswer : A.answer (.read fd loc n) = if f.amode.r then
      (.bytes (readAt f.bytes loc n).length (readAt f.bytes loc n), A) else (.failed (some .eacces), A) := by
    simp only [Account.answer, hf, Int.toNat_natCast]
  by_cases hr : f.amode.r = true
  · rw [if_pos hr] at hanswer
    have hown : h.amode.w = true → ownOf f (sn fd) = sn fd := fun hw => if_pos (hb.amode ▸ hw)
    have hwp := wp_cafsLiteRead (R := fun _ => False) hs hown (hb.amode ▸ hr) hb.size hloc hn hb.small
    rcases exists_of_wp hwp with ⟨⟨r, h'⟩, s', hcall, hans | ⟨hfail, hout⟩⟩
    · have hret := hans.ret
      simp only at hret
      subst hret
      have hbytes : readAt f.bytes loc n = slice C loc (min n (f.bytes.length - loc)) := by
        rw [hC, readAt_slice, length_slice]
      refine ⟨_, _, step_read hh hcall, Or.inl ⟨?_, ?_⟩⟩
      · rw [hanswer, hbytes, length_slice]
      · rw [hanswer]
        exact ht.keep hf hans.kept (hans.backed hb.amode rfl hb.small hC)
    · simp only at hfail
      subst hfail
      exact ⟨_, _, step_read hh hcall, Or.inr ⟨rfl, hout.refused, fun hsmall => ht.lose hf (hout.extends hsmall) _⟩⟩
  · rw [if_neg hr] at hanswer
    have hcall : cafsLiteRead g h loc n s.st = .ok (.error (some .eacces), { h with op := ⟨loc, n, [], []⟩ }) s.st := by
      have hr' : h.amode.r = false := by
        rw [hb.amode]
        simpa using hr
      rw [cafsLiteRead]
      dsimp only
      rw [if_pos hr']
      rfl
    refine ⟨_, _, step_read hh hcall, Or.inl ⟨?_, ?_⟩⟩
    · rw [hanswer]
    · rw [hanswer]
      exact ht.keep hf (Extends.refl hs.tidy)
        ⟨hb.amode, ⟨C, hs.congr ⟨rfl, rfl, rfl, rfl⟩ rfl rfl, hC⟩, hb.size, hb.small⟩

theorem Table.write (ht : Table g s A sn hdr) {fd : Nat} {append : Bool} {loc : Int} {buf : List UInt8} {f : OpenedFile}
    (hf : A fd = some f) (hloc : append = false → 0 ≤ loc) (hstart : Account.start f append loc ≤ f.bytes.length)
    (hend : Account.start f append loc + buf.length < 122 * 65535) :
    StepsTo g sn hdr s A (.write fd append loc buf) := by
  obtain ⟨h, hh, hb⟩ := ht.backed fd f hf
  obtain ⟨C, hs, hC⟩ := hb.serves
  have hanswer : A.answer (.write fd append loc buf) = if f.amode.w then
      (.wrote buf.length, Function.update A fd (some { f with
        bytes := writeAt f.bytes (Account.start f append loc) buf }))
      else (.failed (some .eacces), A) := by
    simp only [Account.answer, hf]
  set p := Account.start f append loc with hp
  have hposition : (if append then h.size else loc) = p := by
    rw [hp, Account.start, hb.size]
    split_ifs with ha
    · rfl
    · exact (Int.toNat_of_nonneg (hloc (by simpa using ha))).symm
  have hsmall := hb.small
  by_cases hw : f.amode.w = true
  · rw [if_pos hw] at hanswer
    have hwh : h.amode.w = true := hb.amode ▸ hw
    have hown : ownOf f (sn fd) = sn fd := if_pos hw
    rw [Serves, if_pos hwh] at hs
    have hend' : max f.bytes.length (p + buf.length) < 122 * 65535 := by omega
    have hwp := wp_cafsLiteWrite (R := fun _ => False) hs hwh hb.size hposition hstart hend'
    rcases exists_of_wp hwp with ⟨⟨r, h'⟩, s', hcall, hans | ⟨hfail, hout⟩⟩
    · have hret := hans.ret
      simp only at hret
      subst hret
      have hbytes : writeAt f.bytes p buf = slice (overwrite C p buf) 0 (max f.bytes.length (p + buf.length)) := by
        conv_lhs => rw [hC]
        exact writeAt_slice hstart
      have hlen : (writeAt f.bytes p buf).length = max f.bytes.length (p + buf.length) := by
        rw [hbytes, length_slice]
      refine ⟨_, _, step_write hh hcall, Or.inl ⟨?_, ?_⟩⟩
      · rw [hanswer]
      · rw [hanswer]
        refine ht.update hf (hown.symm ▸ hans.kept) rfl
          (hans.backed (f := { f with bytes := writeAt f.bytes p buf }) hb.amode hlen.symm (by omega) ?_)
        rw [hlen]
        exact hbytes
    · simp only at hfail
      subst hfail
      exact ⟨_, _, step_write hh hcall, Or.inr ⟨rfl, hout.refused, fun hsmall =>
        ht.lose hf (hown.symm ▸ hout.extends hsmall) _⟩⟩
  · rw [if_neg hw] at hanswer
    have hcall : cafsLiteWrite g h append loc buf s.st =
        .ok (.error (some .eacces), { h with op := ⟨if append then h.size else loc, buf.length, buf, []⟩ }) s.st := by
      have hw' : h.amode.w = false := by
        rw [hb.amode]
        simpa using hw
      rw [cafsLiteWrite]
      dsimp only
      rw [if_pos hw']
      rfl
    refine ⟨_, _, step_write hh hcall, Or.inl ⟨?_, ?_⟩⟩
    · rw [hanswer]
    · rw [hanswer]
      exact ht.keep hf (Extends.refl hs.tidy)
        ⟨hb.amode, ⟨C, hs.congr ⟨rfl, rfl, rfl, rfl⟩ rfl rfl, hC⟩, hb.size, hb.small⟩

theorem Table.stepsTo (ht : Table g s A sn hdr) {c : FsCall} (hc : A.Permits c) : StepsTo g sn hdr s A c := by
  cases c with
  | read fd loc nbyte =>
    obtain ⟨f, hf, h0, hloc, hn, hend⟩ := hc
    obtain ⟨loc, rfl⟩ := Int.eq_ofNat_of_zero_le h0
    obtain ⟨n, rfl⟩ := Int.eq_ofNat_of_zero_le hn
    exact ht.read hf (by omega) (by omega)
  | write fd append loc buf =>
    obtain ⟨f, hf, hstart, hloc, hend⟩ := hc
    exact ht.write hf hloc hstart hend
  | mkfs => exact hc.elim
  | mount => exact hc.elim
  | «open» path flags => exact hc.elim
  | close fd => exact hc.elim
  | unlink path => exact hc.elim

end step

/-- The list of an open file without an item. -/
theorem spread_empty {V : Nat → Bytes} {sn hdr list : Nat} (hfile : OpenFile g V sn hdr [list] []) :
    Spread (OpenFile g V sn hdr) V list fun _ => 0 :=
  ⟨[list], [], hfile, rfl, fun _ _ _ => rfl⟩

/-- Handle `fd` is that of a file nothing has been written to. -/
def isNew (n : Namespace) (fd : Nat) : Bool :=
  match n.fs.handle fd with
  | none => false
  | some h => h.amode.w && h.size == 0 && h.segment == segmentInvalid &&
      h.segmentListBlock == u16 (blk n.fs.st.flash h.hdrBlock) 32

theorem Namespace.Kept.backed {n : Namespace} {sb : List Nat} {E : List Entry} (hn : n.Kept g sb E) {fd : Nat}
    {h : Handle} (hh : n.fs.handle fd = some h) (hnew : isNew n fd = true) :
    Backed g n.fs.st h.segmentData.serialno h.hdrBlock h ⟨h.amode, []⟩ := by
  simp only [isNew, hh, Bool.and_eq_true, beq_iff_eq] at hnew
  obtain ⟨⟨⟨hw, hsize⟩, hseg⟩, hlist⟩ := hnew
  obtain ⟨k, e, hk, hheld, hholds⟩ := hn.handles fd h hh hw
  have hsound := hn.catalogue.sound e (List.mem_of_getElem? hk)
  have hfile := (hsound.file BlockStatus.opened (by rw [hheld]; rfl)).file
  rw [hholds.serialno, hholds.hdr]
  have hopen : OpenFile g (blk n.fs.st.flash) e.serialno e.hdr [e.list] [] :=
    { hfile with
      pending := fun _ hi => absurd hi List.not_mem_nil
      data := fun _ hi => absurd hi List.not_mem_nil
      apart := fun _ _ hj => absurd hj (Nat.not_lt_zero _)
      noSize := hsound.noSize fd hheld }
  refine ⟨rfl, ⟨fun _ => 0, ?_, rfl⟩, hsize, (by decide : 0 < 122 * 65535)⟩
  rw [Serves, if_pos hw]
  refine ⟨hn.catalogue.tidy, hholds.serialno, by rw [hseg]; decide, ⟨fun _ => 0, ?_, (if_neg hholds.clean).symm⟩,
    fun hlt => absurd hlt (by rw [hseg]; decide)⟩
  rw [hlist, hholds.hdr, hfile.content]
  exact spread_empty hopen

end CoActionOS.Cafs
