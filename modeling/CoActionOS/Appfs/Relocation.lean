import CoActionOS.Appfs.Chunks

/-!
# Relocation, chunk by chunk

Behind the header every word of an image is translated, in the chunk with the header by a loop that begins behind it and
in each later chunk by one that begins at its start.  `Image.independent_iff` says for which images the partition into
chunks makes no difference: last bytes that make up no whole word are lost in a later chunk.

What the memory driver answers is left out: a chunk counts as accepted when it is given to the driver.
-/

namespace CoActionOS

namespace Appfs

open Cafs (Bytes le32 u32 slice overwrite)

/-- An application; its offsets are numbers of 32 bits. -/
structure Image where
  bytes : Bytes
  len : Nat
  header : sizeofAppfsFile ≤ len
  fits : len < 2 ^ 32

variable (dev : Device) (symbols : List (BitVec 32))

/-- A chunk of the image at an offset, which is that of a word. -/
structure Image.Chunk (image : Image) (o : Nat) (c : InstallChunk) : Prop where
  loc : c.loc.toNat = o
  aligned : 4 ∣ o
  bytes : ∀ i < c.nbyte.toNat, c.buffer i = image.bytes (o + i)

/-- The chunks are those of the image from an offset on. -/
def Image.Splits (image : Image) : Nat → List (InstallChunk × Bytes) → Prop
  | o, [] => o = image.len
  | o, (c, _) :: cs => image.Chunk o c ∧ image.Splits (o + c.nbyte.toNat) cs

/-- The chunks of an image, each with what is on the stack when it is installed; the first has the whole header. -/
structure Image.Partition (image : Image) where
  first : InstallChunk × Bytes
  later : List (InstallChunk × Bytes)
  header : sizeofAppfsFile ≤ first.1.nbyte.toNat
  splits : image.Splits 0 (first :: later)

/-- What is written for these chunks, or that one of them is refused. -/
def installAll (s : Session) : List (InstallChunk × Bytes) → Option (List UInt8)
  | [] => some []
  | (c, stack) :: cs =>
    match writeinstall dev symbols stack s c with
    | (_, none) => none
    | (s, some w) => (installAll s cs).map (slice w.buffer 0 w.nbyte.toNat ++ ·)

/-- A byte of the translated words. -/
def InstallHandle.relocated (h : InstallHandle) (d : Bytes) : Bytes := fun i =>
  (le32 (h.translate symbols (wordAt d (i / 4))).1.toNat).getD (i % 4) 0

/-- The words are translated, and what is no whole word is copied. -/
def Image.relocated (image : Image) (h : InstallHandle) : Bytes := fun i =>
  if i < image.len / 4 * 4 then h.relocated symbols image.bytes i else image.bytes i

/-- The partition makes no difference: all are accepted or none is, and behind the header the relocated image is written. -/
structure Image.Independent (image : Image) (s : Session) (h : InstallHandle) : Prop where
  outcome : ∀ p p' : image.Partition,
    (installAll dev symbols s (p.first :: p.later)).isSome = (installAll dev symbols s (p'.first :: p'.later)).isSome
  relocated : ∀ (p : image.Partition) (bytes : List UInt8), installAll dev symbols s (p.first :: p.later) = some bytes →
    bytes.drop sizeofAppfsFile = slice (image.relocated symbols h) sizeofAppfsFile (image.len - sizeofAppfsFile)

/-- The words are no symbols, or symbols that the kernel has. -/
def InstallHandle.Resolves (h : InstallHandle) (d : Bytes) (i j : Nat) : Prop :=
  ∀ k, i ≤ k → k < j → (h.translate symbols (wordAt d k)).2 = false

/-- A chunk that ends at this offset does not go beyond the bound. -/
def InstallHandle.Passes (h : InstallHandle) (e : Nat) : Prop :=
  (h.codeStart.toNat + e) % 2 ^ 32 ≤ (h.codeStart + h.codeSize + h.dataSize).toNat

/-! ### The loop -/

section

variable {dev symbols} {h : InstallHandle} {src dest stack : Bytes} {s : Session} {image : Image}

theorem translate_fst_of_snd {w : BitVec 32} (hw : (h.translate symbols w).2 = true) : (h.translate symbols w).1 = 0 := by
  unfold InstallHandle.translate translateValue at *
  split_ifs at * with hmask hkernel hram
  · split at hw
    · exact eq_of_beq hw
    · rfl

/-- Where a symbol is missing the loop returns -1, whatever `errno` was. -/
theorem translateWords_of_not {n i : Nat} {errno : Option Errno} (hnot : ¬ h.Resolves symbols src i (i + n)) :
    (translateWords symbols h src n i errno dest).2 = none := by
  induction n generalizing i errno dest with
  | zero => exact absurd (fun k h1 h2 => absurd h1 (Nat.not_le_of_lt h2)) hnot
  | succ n ih =>
    unfold translateWords
    dsimp only
    cases hsnd : (h.translate symbols (wordAt src i)).2 with
    | true =>
      rw [if_pos rfl, if_pos ⟨translate_fst_of_snd hsnd, rfl⟩]
    | false =>
      rw [if_neg Bool.false_ne_true]
      by_cases hstale : (h.translate symbols (wordAt src i)).1 = 0 ∧ errno = some .enoexec
      · rw [if_pos hstale]
      · rw [if_neg hstale]
        refine ih fun hall => hnot fun k h1 h2 => ?_
        rcases Nat.eq_or_lt_of_le h1 with rfl | h1
        · exact hsnd
        · exact hall k h1 (by omega)

/-- Without a missing symbol the words are translated, unless `errno` tells of one that was missing before. -/
theorem translateWords_of_resolves {n i : Nat} {errno : Option Errno} (herr : errno ≠ some .enoexec)
    (hall : h.Resolves symbols src i (i + n)) :
    translateWords symbols h src n i errno dest =
      (errno, some fun b => if 4 * i ≤ b ∧ b < 4 * (i + n) then h.relocated symbols src b else dest b) := by
  induction n generalizing i dest with
  | zero =>
    unfold translateWords
    congr 2
    funext b
    rw [if_neg (by omega)]
  | succ n ih =>
    have hfirst := hall i le_rfl (by omega)
    unfold translateWords
    dsimp only
    rw [hfirst, if_neg Bool.false_ne_true, if_neg fun h => herr h.2,
      ih fun k h1 h2 => hall k (by omega) (by omega)]
    congr 2
    funext b
    by_cases hrest : 4 * (i + 1) ≤ b ∧ b < 4 * (i + 1 + n)
    · rw [if_pos hrest, if_pos (by omega)]
    · rw [if_neg hrest]
      unfold overwrite
      rw [Cafs.length_le32]
      by_cases hword : 4 * i ≤ b ∧ b < 4 * i + 4
      · rw [if_pos hword, if_pos (by omega)]
        unfold InstallHandle.relocated
        rw [show b / 4 = i by omega, show b % 4 = b - 4 * i by omega]
      · rw [if_neg hword, if_neg (by omega)]

/-! ### A chunk -/

theorem passes_iff {c : InstallChunk} {o : Nat} (hloc : c.loc.toNat = o) (s : Session) :
    s.handle.Passes (o + c.nbyte.toNat) ↔ ¬ s.bound .install < c.loc + s.handle.codeStart + c.nbyte := by
  rw [bound_lt_iff, Nat.not_lt, hloc, Nat.add_assoc]
  exact Iff.rfl

theorem wordAt_congr {d d' : Bytes} {i j : Nat} (hd : ∀ k < 4, d (4 * i + k) = d' (4 * j + k)) :
    wordAt d i = wordAt d' j := by
  unfold wordAt
  rw [Cafs.u32_congr hd]

/-- The words of a chunk are those of the image. -/
theorem wordAt_chunk {c : InstallChunk} {o : Nat} (h4 : 4 ∣ o)
    (hbuf : ∀ i < c.nbyte.toNat, c.buffer i = image.bytes (o + i)) {k : Nat} (hk : k < c.nbyte.toNat / 4) :
    wordAt c.buffer k = wordAt image.bytes (o / 4 + k) := by
  apply wordAt_congr
  intro i hi
  rw [hbuf _ (by omega)]
  congr 1
  omega

theorem resolves_chunk {c : InstallChunk} {o : Nat} (h4 : 4 ∣ o)
    (hbuf : ∀ i < c.nbyte.toNat, c.buffer i = image.bytes (o + i)) {i j : Nat} (hj : j ≤ c.nbyte.toNat / 4) :
    h.Resolves symbols c.buffer i j ↔ h.Resolves symbols image.bytes (o / 4 + i) (o / 4 + j) := by
  constructor
  · intro hall k h1 h2
    have hk := hall (k - o / 4) (by omega) (by omega)
    rwa [wordAt_chunk h4 hbuf (by omega), show o / 4 + (k - o / 4) = k by omega] at hk
  · intro hall k h1 h2
    rw [wordAt_chunk h4 hbuf (by omega)]
    exact hall _ (by omega) (by omega)

theorem relocated_chunk {c : InstallChunk} {o : Nat} (h4 : 4 ∣ o)
    (hbuf : ∀ i < c.nbyte.toNat, c.buffer i = image.bytes (o + i)) {b : Nat} (hb : b < c.nbyte.toNat / 4 * 4) :
    h.relocated symbols c.buffer b = h.relocated symbols image.bytes (o + b) := by
  unfold InstallHandle.relocated
  rw [wordAt_chunk h4 hbuf (by omega), show (o + b) / 4 = o / 4 + b / 4 by omega, show (o + b) % 4 = b % 4 by omega]

theorem and_three_eq_zero_iff {loc : BitVec 32} : loc &&& 3 = 0 ↔ 4 ∣ loc.toNat := by
  rw [← BitVec.toNat_inj, BitVec.toNat_and, show (3 : BitVec 32).toNat = 2 ^ 2 - 1 from rfl,
    Nat.and_two_pow_sub_one_eq_mod, Nat.dvd_iff_mod_eq_zero]
  exact Iff.rfl

/-- The end of the function when all words are translated. -/
theorem translated_of_resolves {c : InstallChunk} {n i : Nat} {errno : Option Errno} (herr : errno ≠ some .enoexec)
    (hall : s.handle.Resolves symbols src i (i + n))
    (hpass : ¬ s.bound .install < c.loc + s.handle.codeStart + c.nbyte) :
    (match translateWords symbols s.handle src n i errno dest with
      | (errno, none) => ({ s with errno := errno }, none)
      | (errno, some dest) => finishInstall { s with errno := errno } c dest) =
      ({ s with errno := errno }, some
        { c with
          loc := c.loc + s.handle.codeStart
          buffer := fun b => if 4 * i ≤ b ∧ b < 4 * (i + n) then s.handle.relocated symbols src b else dest b }) := by
  rw [translateWords_of_resolves herr hall]
  exact finishInstall_of_pass (s := { s with errno := errno }) hpass _

/-- A symbol that is missing, or the bound, is the end of the function without a write. -/
theorem translated_of_not {c : InstallChunk} {n i : Nat} {errno : Option Errno} (herr : errno ≠ some .enoexec)
    (hnot : ¬ (s.handle.Resolves symbols src i (i + n) ∧
      ¬ s.bound .install < c.loc + s.handle.codeStart + c.nbyte)) :
    (match translateWords symbols s.handle src n i errno dest with
      | (errno, none) => ({ s with errno := errno }, none)
      | (errno, some dest) => finishInstall { s with errno := errno } c dest).2 = none := by
  by_cases hall : s.handle.Resolves symbols src i (i + n)
  · rw [translateWords_of_resolves herr hall]
    have hover : s.bound .install < c.loc + s.handle.codeStart + c.nbyte := by
      by_contra hpass
      exact hnot ⟨hall, hpass⟩
    exact congrArg Prod.snd (finishInstall_of_over (s := { s with errno := errno }) hover _)
  · have hnone : (translateWords symbols s.handle src n i errno dest).2 = none := translateWords_of_not hall
    generalize translateWords symbols s.handle src n i errno dest = r at hnone
    obtain ⟨errno, dest⟩ := r
    obtain rfl : dest = none := hnone
    rfl

/-- What a chunk at a later offset does. -/
theorem Image.Chunk.writeinstall_eq {c : InstallChunk} {o : Nat} (hc : image.Chunk o c) (ho : 0 < o) :
    writeinstall dev symbols stack s c =
      match translateWords symbols s.handle c.buffer (c.nbyte.toNat / 4) 0 s.errno stack with
      | (errno, none) => ({ s with errno := errno }, none)
      | (errno, some dest) => finishInstall { s with errno := errno } c dest := by
  have hne : c.loc ≠ 0 := by
    intro hzero
    have hloc := hc.loc
    rw [hzero] at hloc
    exact absurd hloc (Nat.ne_of_lt ho)
  have halign : ¬ c.loc &&& 3 ≠ 0 := not_not.mpr (and_three_eq_zero_iff.mpr (hc.loc ▸ hc.aligned))
  unfold writeinstall
  refine (if_neg hne).trans ((if_neg halign).trans ?_)
  rfl

variable (dev stack) in
/-- For a later chunk its words are written translated, and behind them what is on the stack. -/
theorem Image.Chunk.written {c : InstallChunk} {o : Nat} (hc : image.Chunk o c) (ho : 0 < o)
    (herr : s.errno ≠ some .enoexec)
    (hall : s.handle.Resolves symbols image.bytes (o / 4) (o / 4 + c.nbyte.toNat / 4))
    (hpass : s.handle.Passes (o + c.nbyte.toNat)) :
    ∃ w, writeinstall dev symbols stack s c = (s, some w) ∧ w.nbyte = c.nbyte ∧
      ∀ b, w.buffer b =
        if b < c.nbyte.toNat / 4 * 4 then s.handle.relocated symbols image.bytes (o + b) else stack b := by
  have hwords : s.handle.Resolves symbols c.buffer 0 (0 + c.nbyte.toNat / 4) := by
    rw [Nat.zero_add]
    exact (resolves_chunk hc.aligned hc.bytes le_rfl).mpr hall
  refine ⟨_, (hc.writeinstall_eq ho).trans (translated_of_resolves herr hwords ((passes_iff hc.loc s).mp hpass)), rfl,
    fun b => ?_⟩
  dsimp only
  by_cases hb : b < c.nbyte.toNat / 4 * 4
  · rw [if_pos hb, if_pos (by omega), relocated_chunk hc.aligned hc.bytes hb]
  · rw [if_neg hb, if_neg (by omega)]

variable (dev stack) in
/-- A later chunk with a symbol that is missing, or beyond the bound, is refused. -/
theorem Image.Chunk.refused {c : InstallChunk} {o : Nat} (hc : image.Chunk o c) (ho : 0 < o)
    (herr : s.errno ≠ some .enoexec)
    (hnot : ¬ (s.handle.Resolves symbols image.bytes (o / 4) (o / 4 + c.nbyte.toNat / 4) ∧
      s.handle.Passes (o + c.nbyte.toNat))) :
    (writeinstall dev symbols stack s c).2 = none := by
  rw [hc.writeinstall_eq ho]
  refine translated_of_not herr fun h => hnot ⟨?_, (passes_iff hc.loc s).mpr h.2⟩
  have hwords := h.1
  rw [Nat.zero_add] at hwords
  exact (resolves_chunk hc.aligned hc.bytes le_rfl).mp hwords

/-! ### The chunk with the header -/

theorem ofBytes_congr {d d' : Bytes} (hd : ∀ i < sizeofAppfsFile, d i = d' i) : AppfsFile.ofBytes d = AppfsFile.ofBytes d' := by
  have hword : ∀ o, o + 4 ≤ sizeofAppfsFile → u32 d o = u32 d' o := fun o ho =>
    Cafs.u32_congr fun i hi => hd _ (by omega)
  have hname : (Vector.ofFn fun i : Fin nameMax => d i) = Vector.ofFn fun i : Fin nameMax => d' i := by
    congr 1
    funext i
    have hi := i.isLt
    exact hd i (by unfold nameMax sizeofAppfsFile at *; omega)
  unfold AppfsFile.ofBytes
  rw [hname, hword 32 (by decide), hword 36 (by decide), hword 40 (by decide), hword 44 (by decide),
    hword 48 (by decide), hword 52 (by decide), hword 56 (by decide)]

section

variable {code data : Store.Place}

/-- The header of the first chunk is that of the image. -/
theorem Image.Chunk.header {c : InstallChunk} (hc : image.Chunk 0 c) (hsize : sizeofAppfsFile ≤ c.nbyte.toNat) :
    AppfsFile.ofBytes c.buffer = AppfsFile.ofBytes image.bytes :=
  ofBytes_congr fun i hi => by rw [hc.bytes i (by omega), Nat.zero_add]

theorem Image.Chunk.header_resolves {c : InstallChunk} (hc : image.Chunk 0 c) (hsize : sizeofAppfsFile ≤ c.nbyte.toNat) :
    h.Resolves symbols c.buffer 15 (15 + (c.nbyte.toNat / 4 - 15)) ↔
      h.Resolves symbols image.bytes 15 (c.nbyte.toNat / 4) := by
  have hsize' : 60 ≤ c.nbyte.toNat := hsize
  rw [resolves_chunk hc.aligned hc.bytes (by omega), Nat.zero_div, Nat.zero_add, Nat.zero_add,
    show 15 + (c.nbyte.toNat / 4 - 15) = c.nbyte.toNat / 4 by omega]

theorem Image.Chunk.header_passes {c : InstallChunk} (hc : image.Chunk 0 c) (s : Session) :
    s.handle.Passes c.nbyte.toNat ↔ ¬ s.bound .install < c.loc + s.handle.codeStart + c.nbyte := by
  rw [← passes_iff hc.loc s, Nat.zero_add]

variable (stack) in
/-- For the first chunk the words behind the header are written translated. -/
theorem Image.Chunk.header_written {c : InstallChunk} (hc : image.Chunk 0 c) (hsize : sizeofAppfsFile ≤ c.nbyte.toNat)
    (hacc : HeaderAccepted dev symbols s.store (AppfsFile.ofBytes image.bytes) code data)
    (hall : (installHandle (AppfsFile.ofBytes image.bytes) code data).Resolves symbols image.bytes 15 (c.nbyte.toNat / 4))
    (hpass : (installHandle (AppfsFile.ofBytes image.bytes) code data).Passes c.nbyte.toNat) :
    ∃ w, writeinstall dev symbols stack s c =
        ({ s.accepted (AppfsFile.ofBytes image.bytes) code data with errno := none }, some w) ∧
      w.nbyte = c.nbyte ∧ ∀ b, sizeofAppfsFile ≤ b → b < c.nbyte.toNat / 4 * 4 →
        w.buffer b = (installHandle (AppfsFile.ofBytes image.bytes) code data).relocated symbols image.bytes b := by
  have hloc : c.loc = 0 := BitVec.eq_of_toNat_eq hc.loc
  have hsize' : 60 ≤ c.nbyte.toNat := hsize
  have herr : (none : Option Errno) ≠ some .enoexec := by exact nofun
  have hall' := (hc.header_resolves hsize).mpr hall
  rw [← hc.header hsize] at hacc hpass hall' ⊢
  have hpass' := (hc.header_passes (s.accepted (AppfsFile.ofBytes c.buffer) code data)).mp hpass
  rw [writeinstall_accepted hloc hsize hacc]
  refine ⟨_, translated_of_resolves herr hall' hpass', rfl, fun b hb hword => ?_⟩
  have hb' : 60 ≤ b := hb
  dsimp only
  rw [if_pos (by omega), relocated_chunk hc.aligned hc.bytes hword, Nat.zero_add]
  rfl

variable (stack) in
theorem Image.Chunk.header_refused {c : InstallChunk} (hc : image.Chunk 0 c) (hsize : sizeofAppfsFile ≤ c.nbyte.toNat)
    (hacc : HeaderAccepted dev symbols s.store (AppfsFile.ofBytes image.bytes) code data)
    (hnot : ¬ ((installHandle (AppfsFile.ofBytes image.bytes) code data).Resolves symbols image.bytes 15
        (c.nbyte.toNat / 4) ∧ (installHandle (AppfsFile.ofBytes image.bytes) code data).Passes c.nbyte.toNat)) :
    (writeinstall dev symbols stack s c).2 = none := by
  have hloc : c.loc = 0 := BitVec.eq_of_toNat_eq hc.loc
  have herr : (none : Option Errno) ≠ some .enoexec := by exact nofun
  rw [← hc.header hsize] at hacc hnot
  rw [writeinstall_accepted hloc hsize hacc]
  exact translated_of_not herr fun h => hnot ⟨(hc.header_resolves hsize).mp h.1, (hc.header_passes _).mpr h.2⟩

end

/-! ### All chunks -/

/-- No chunk ends beyond the bound. -/
def InstallHandle.Ends (h : InstallHandle) : Nat → List (InstallChunk × Bytes) → Prop
  | _, [] => True
  | o, (c, _) :: cs => h.Passes (o + c.nbyte.toNat) ∧ h.Ends (o + c.nbyte.toNat) cs

theorem Image.Splits.le {o : Nat} {cs : List (InstallChunk × Bytes)} (hcs : image.Splits o cs) : o ≤ image.len := by
  induction cs generalizing o with
  | nil => exact Nat.le_of_eq hcs
  | cons c cs ih => exact (Nat.le_add_right _ _).trans (ih hcs.2)

theorem resolves_append {d : Bytes} {i j k : Nat} (hij : i ≤ j) (hjk : j ≤ k) :
    h.Resolves symbols d i k ↔ h.Resolves symbols d i j ∧ h.Resolves symbols d j k := by
  constructor
  · exact fun hall => ⟨fun m h1 h2 => hall m h1 (by omega), fun m h1 h2 => hall m (by omega) h2⟩
  · rintro ⟨hfirst, hrest⟩ m h1 h2
    rcases Nat.lt_or_ge m j with hm | hm
    · exact hfirst m h1 hm
    · exact hrest m hm h2

theorem installAll_of_refused {c : InstallChunk} {cs : List (InstallChunk × Bytes)}
    (hnone : (writeinstall dev symbols stack s c).2 = none) : installAll dev symbols s ((c, stack) :: cs) = none := by
  unfold installAll
  generalize writeinstall dev symbols stack s c = r at hnone
  obtain ⟨s', w⟩ := r
  obtain rfl : w = none := hnone
  rfl

/-- The later chunks are accepted if no symbol is missing from there on and no chunk ends beyond the bound. -/
theorem installAll_later {o : Nat} {cs : List (InstallChunk × Bytes)} (hcs : image.Splits o cs) (ho : 0 < o)
    (herr : s.errno ≠ some .enoexec) :
    (installAll dev symbols s cs).isSome = true ↔
      s.handle.Resolves symbols image.bytes (o / 4) (image.len / 4) ∧ s.handle.Ends o cs := by
  induction cs generalizing o with
  | nil =>
    refine iff_of_true rfl ⟨fun k h1 h2 => ?_, trivial⟩
    rw [show o = image.len from hcs] at h1
    exact absurd h1 (Nat.not_le_of_lt h2)
  | cons c cs ih =>
    obtain ⟨c, stack⟩ := c
    obtain ⟨hc, hrest⟩ := hcs
    have hle := hrest.le
    have haligned := hc.aligned
    have hnext : (o + c.nbyte.toNat) / 4 = o / 4 + c.nbyte.toNat / 4 := by omega
    rw [resolves_append (Nat.le_add_right (o / 4) (c.nbyte.toNat / 4)) (by omega), ← hnext]
    unfold InstallHandle.Ends
    by_cases hgood : s.handle.Resolves symbols image.bytes (o / 4) ((o + c.nbyte.toNat) / 4) ∧
        s.handle.Passes (o + c.nbyte.toNat)
    · obtain ⟨w, hw, -⟩ := hc.written dev stack ho herr (hnext ▸ hgood.1) hgood.2
      unfold installAll
      rw [hw]
      dsimp only
      rw [Option.isSome_map, ih hrest (by omega)]
      exact ⟨fun h => ⟨⟨hgood.1, h.1⟩, hgood.2, h.2⟩, fun h => ⟨h.1.2, h.2.2⟩⟩
    · rw [installAll_of_refused (hc.refused dev stack ho herr (hnext ▸ hgood))]
      exact iff_of_false (by exact nofun) fun h => hgood ⟨h.1.1, h.2.1⟩

theorem slice_append (d : Bytes) (o n m : Nat) : slice d o n ++ slice d (o + n) m = slice d o (n + m) := by
  unfold slice
  rw [List.range_add, List.map_append, List.map_map]
  congr 2
  funext i
  exact congrArg d (Nat.add_assoc o n i)

theorem getElem?_slice {d : Bytes} {o n i : Nat} (hi : i < n) : (slice d o n)[i]? = some (d (o + i)) := by
  rw [List.getElem?_eq_getElem (by rwa [Cafs.length_slice]), Cafs.getElem_slice]

/-- The bytes of the later chunks are those of the relocated image, if it ends with a whole word. -/
theorem installAll_later_bytes {o : Nat} {cs : List (InstallChunk × Bytes)} {bytes : List UInt8} (hcs : image.Splits o cs)
    (ho : 0 < o) (herr : s.errno ≠ some .enoexec) (h4 : 4 ∣ image.len) (h : installAll dev symbols s cs = some bytes) :
    bytes = slice (image.relocated symbols s.handle) o (image.len - o) := by
  induction cs generalizing o bytes with
  | nil =>
    rw [show o = image.len from hcs, Nat.sub_self]
    exact (Option.some.inj h).symm
  | cons c cs ih =>
    obtain ⟨c, stack⟩ := c
    have hall := (installAll_later hcs ho herr).mp (Option.isSome_iff_exists.mpr ⟨bytes, h⟩)
    obtain ⟨hc, hrest⟩ := hcs
    have hle := hrest.le
    have haligned := hc.aligned
    have hnext : (o + c.nbyte.toNat) / 4 = o / 4 + c.nbyte.toNat / 4 := by omega
    have hwords := (resolves_append (Nat.le_add_right (o / 4) (c.nbyte.toNat / 4)) (by omega)).mp hall.1
    obtain ⟨w, hw, hnbyte, hbuffer⟩ := hc.written dev stack ho herr hwords.1 hall.2.1
    unfold installAll at h
    rw [hw] at h
    obtain ⟨bytes', hbytes', rfl⟩ := Option.map_eq_some_iff.mp h
    -- the next chunk begins with a word, and the image ends with one
    have hwhole : 4 ∣ o + c.nbyte.toNat := by
      cases cs with
      | nil => exact (show o + c.nbyte.toNat = image.len from hrest) ▸ h4
      | cons c' cs => exact hrest.1.aligned
    rw [ih hrest (by omega) hbytes', hnbyte, show image.len - o = c.nbyte.toNat + (image.len - (o + c.nbyte.toNat)) by omega,
      ← slice_append]
    congr 1
    apply Cafs.slice_congr
    intro i hi
    unfold Image.relocated
    rw [Nat.zero_add, hbuffer, if_pos (by omega), if_pos (by omega)]

section

variable {c : InstallChunk} {cs : List (InstallChunk × Bytes)} {code data : Store.Place}

/-- All chunks are accepted if no symbol behind the header is missing and no chunk ends beyond the bound. -/
theorem installAll_isSome_iff (hsize : sizeofAppfsFile ≤ c.nbyte.toNat) (hcs : image.Splits 0 ((c, stack) :: cs))
    (hacc : HeaderAccepted dev symbols s.store (AppfsFile.ofBytes image.bytes) code data) :
    (installAll dev symbols s ((c, stack) :: cs)).isSome = true ↔
      (installHandle (AppfsFile.ofBytes image.bytes) code data).Resolves symbols image.bytes 15 (image.len / 4) ∧
        (installHandle (AppfsFile.ofBytes image.bytes) code data).Ends 0 ((c, stack) :: cs) := by
  obtain ⟨hc, hrest⟩ := hcs
  have hsize' : 60 ≤ c.nbyte.toNat := hsize
  have hle := hrest.le
  rw [Nat.zero_add] at hrest hle
  rw [resolves_append (show 15 ≤ c.nbyte.toNat / 4 by omega) (by omega)]
  unfold InstallHandle.Ends
  rw [Nat.zero_add]
  by_cases hgood : (installHandle (AppfsFile.ofBytes image.bytes) code data).Resolves symbols image.bytes 15
      (c.nbyte.toNat / 4) ∧ (installHandle (AppfsFile.ofBytes image.bytes) code data).Passes c.nbyte.toNat
  · obtain ⟨w, hw, -⟩ := hc.header_written stack hsize hacc hgood.1 hgood.2
    unfold installAll
    rw [hw]
    dsimp only
    rw [Option.isSome_map, installAll_later hrest (by omega) (by exact nofun)]
    exact ⟨fun h => ⟨⟨hgood.1, h.1⟩, hgood.2, h.2⟩, fun h => ⟨h.1.2, h.2.2⟩⟩
  · rw [installAll_of_refused (hc.header_refused stack hsize hacc hgood)]
    exact iff_of_false (by exact nofun) fun h => hgood ⟨h.1.1, h.2.1⟩

theorem installAll_bytes {bytes : List UInt8} (hsize : sizeofAppfsFile ≤ c.nbyte.toNat)
    (hcs : image.Splits 0 ((c, stack) :: cs))
    (hacc : HeaderAccepted dev symbols s.store (AppfsFile.ofBytes image.bytes) code data) (h4 : 4 ∣ image.len)
    (h : installAll dev symbols s ((c, stack) :: cs) = some bytes) :
    bytes.drop sizeofAppfsFile =
      slice (image.relocated symbols (installHandle (AppfsFile.ofBytes image.bytes) code data)) sizeofAppfsFile
        (image.len - sizeofAppfsFile) := by
  have hall := (installAll_isSome_iff hsize hcs hacc).mp (Option.isSome_iff_exists.mpr ⟨bytes, h⟩)
  obtain ⟨hc, hrest⟩ := hcs
  have hsize' : 60 ≤ c.nbyte.toNat := hsize
  have hle := hrest.le
  have hpass := hall.2.1
  rw [Nat.zero_add] at hrest hle hpass
  have hwords := (resolves_append (show 15 ≤ c.nbyte.toNat / 4 by omega) (by omega)).mp hall.1
  obtain ⟨w, hw, hnbyte, hbuffer⟩ := hc.header_written stack hsize hacc hwords.1 hpass
  unfold installAll at h
  rw [hw] at h
  obtain ⟨bytes', hbytes', rfl⟩ := Option.map_eq_some_iff.mp h
  have hwhole : 4 ∣ c.nbyte.toNat := by
    cases cs with
    | nil => exact (show c.nbyte.toNat = image.len from hrest) ▸ h4
    | cons c' cs => exact hrest.1.aligned
  have hbody : slice w.buffer sizeofAppfsFile (c.nbyte.toNat - sizeofAppfsFile) =
      slice (image.relocated symbols (installHandle (AppfsFile.ofBytes image.bytes) code data)) sizeofAppfsFile
        (c.nbyte.toNat - sizeofAppfsFile) := by
    apply Cafs.slice_congr
    intro i hi
    unfold Image.relocated
    rw [hbuffer _ (Nat.le_add_right _ _) (by omega), if_pos (by omega)]
  have hhead : slice w.buffer 0 c.nbyte.toNat =
      slice w.buffer 0 sizeofAppfsFile ++ slice w.buffer sizeofAppfsFile (c.nbyte.toNat - sizeofAppfsFile) := by
    have hjoin := slice_append w.buffer 0 sizeofAppfsFile (c.nbyte.toNat - sizeofAppfsFile)
    rw [Nat.zero_add, Nat.add_sub_cancel' hsize] at hjoin
    exact hjoin.symm
  rw [installAll_later_bytes hrest (by omega) (by exact nofun) h4 hbytes', hnbyte, hhead, hbody, List.append_assoc,
    List.drop_left' (Cafs.length_slice _ _ _)]
  have hjoin := slice_append (image.relocated symbols (installHandle (AppfsFile.ofBytes image.bytes) code data))
    sizeofAppfsFile (c.nbyte.toNat - sizeofAppfsFile) (image.len - c.nbyte.toNat)
  rw [Nat.add_sub_cancel' hsize,
    show c.nbyte.toNat - sizeofAppfsFile + (image.len - c.nbyte.toNat) = image.len - sizeofAppfsFile by omega] at hjoin
  exact hjoin

/-- The last chunk ends with the image. -/
theorem Image.Splits.passes_len {o : Nat} (hcs : image.Splits o cs) (hne : cs ≠ []) (hends : h.Ends o cs) :
    h.Passes image.len := by
  induction cs generalizing o with
  | nil => exact absurd rfl hne
  | cons c cs ih =>
    cases cs with
    | nil => exact (show o + c.1.nbyte.toNat = image.len from hcs.2) ▸ hends.1
    | cons c' cs => exact ih hcs.2 (List.cons_ne_nil _ _) hends.2

/-- Chunks end at the offset of a word, or with the image. -/
theorem Image.Splits.ends {o : Nat} (hcs : image.Splits o cs) (hlast : h.Passes image.len)
    (hwords : ∀ e, o ≤ e → e ≤ image.len → 4 ∣ e → h.Passes e) : h.Ends o cs := by
  induction cs generalizing o with
  | nil => trivial
  | cons c cs ih =>
    have hle := hcs.2.le
    refine ⟨?_, ih hcs.2 fun e h1 h2 => hwords e (by omega) h2⟩
    cases cs with
    | nil => exact (show o + c.1.nbyte.toNat = image.len from hcs.2).symm ▸ hlast
    | cons c' cs => exact hwords _ (Nat.le_add_right _ _) hle hcs.2.1.aligned

end

/-! ### Partitions -/

/-- Chunks end with a word behind the header, or with the image. -/
theorem Image.Partition.ends (p : image.Partition) (hlast : h.Passes image.len)
    (hwords : ∀ e, sizeofAppfsFile ≤ e → e ≤ image.len → 4 ∣ e → h.Passes e) : h.Ends 0 (p.first :: p.later) := by
  have hheader := p.header
  have hrest : image.Splits (0 + p.first.1.nbyte.toNat) p.later := p.splits.2
  refine ⟨?_, hrest.ends hlast fun e h1 h2 => hwords e (by omega) h2⟩
  cases hlater : p.later with
  | nil =>
    rw [hlater] at hrest
    exact (show 0 + p.first.1.nbyte.toNat = image.len from hrest).symm ▸ hlast
  | cons c cs =>
    have hle := hrest.le
    rw [hlater] at hrest
    have hend : sizeofAppfsFile ≤ 0 + p.first.1.nbyte.toNat := by omega
    exact hwords _ hend hle hrest.1.aligned

/-- Some bytes of the image as a chunk. -/
def Image.chunkAt (image : Image) (o n : Nat) : InstallChunk :=
  ⟨BitVec.ofNat 32 o, BitVec.ofNat 32 n, fun i => image.bytes (o + i)⟩

theorem Image.chunk_chunkAt (image : Image) {o : Nat} (n : Nat) (hle : o ≤ image.len) (h4 : 4 ∣ o) :
    image.Chunk o (image.chunkAt o n) where
  loc := by
    have hfits := image.fits
    change (BitVec.ofNat 32 o).toNat = o
    rw [BitVec.toNat_ofNat, Nat.mod_eq_of_lt (by omega)]
  aligned := h4
  bytes _ _ := rfl

theorem Image.nbyte_chunkAt (image : Image) (o : Nat) {n : Nat} (hle : n ≤ image.len) :
    (image.chunkAt o n).nbyte.toNat = n := by
  have hfits := image.fits
  change (BitVec.ofNat 32 n).toNat = n
  rw [BitVec.toNat_ofNat, Nat.mod_eq_of_lt (by omega)]

/-- The image in one chunk. -/
def Image.whole (image : Image) (stack : Bytes) : image.Partition where
  first := (image.chunkAt 0 image.len, stack)
  later := []
  header := by
    rw [image.nbyte_chunkAt 0 le_rfl]
    exact image.header
  splits := by
    refine ⟨image.chunk_chunkAt _ (Nat.zero_le _) (Nat.dvd_zero 4), ?_⟩
    change 0 + (image.chunkAt 0 image.len).nbyte.toNat = image.len
    rw [image.nbyte_chunkAt 0 le_rfl, Nat.zero_add]

/-- The image in two chunks, the second from the word at an offset on. -/
def Image.cut (image : Image) (stack : Bytes) (e : Nat) (hheader : sizeofAppfsFile ≤ e) (hle : e ≤ image.len)
    (h4 : 4 ∣ e) : image.Partition where
  first := (image.chunkAt 0 e, stack)
  later := [(image.chunkAt e (image.len - e), stack)]
  header := by
    rw [image.nbyte_chunkAt 0 hle]
    exact hheader
  splits := by
    refine ⟨image.chunk_chunkAt _ (Nat.zero_le _) (Nat.dvd_zero 4), ?_⟩
    rw [image.nbyte_chunkAt 0 hle, Nat.zero_add]
    refine ⟨image.chunk_chunkAt _ hle h4, ?_⟩
    change e + (image.chunkAt e (image.len - e)).nbyte.toNat = image.len
    rw [image.nbyte_chunkAt e (Nat.sub_le _ _), Nat.add_sub_cancel' hle]

section

variable (image) {code data : Store.Place}

theorem Image.accepted_whole (stack : Bytes)
    (hacc : HeaderAccepted dev symbols s.store (AppfsFile.ofBytes image.bytes) code data)
    (hall : (installHandle (AppfsFile.ofBytes image.bytes) code data).Resolves symbols image.bytes 15 (image.len / 4))
    (hlast : (installHandle (AppfsFile.ofBytes image.bytes) code data).Passes image.len) :
    (installAll dev symbols s ((image.whole stack).first :: (image.whole stack).later)).isSome = true := by
  refine (installAll_isSome_iff (image.whole stack).header (image.whole stack).splits hacc).mpr ⟨hall, ?_, trivial⟩
  change (installHandle (AppfsFile.ofBytes image.bytes) code data).Passes (0 + (image.chunkAt 0 image.len).nbyte.toNat)
  rw [image.nbyte_chunkAt 0 le_rfl, Nat.zero_add]
  exact hlast

/-- In a chunk of their own the last bytes of an image that are no whole word are what is on the stack. -/
theorem Image.lost_bytes (hacc : HeaderAccepted dev symbols s.store (AppfsFile.ofBytes image.bytes) code data)
    (hall : (installHandle (AppfsFile.ofBytes image.bytes) code data).Resolves symbols image.bytes 15 (image.len / 4))
    (hlast : (installHandle (AppfsFile.ofBytes image.bytes) code data).Passes image.len)
    (hheader : (installHandle (AppfsFile.ofBytes image.bytes) code data).Passes sizeofAppfsFile) (h4 : ¬ 4 ∣ image.len) :
    ¬ image.Independent dev symbols s (installHandle (AppfsFile.ofBytes image.bytes) code data) := by
  intro hind
  let stack : Bytes := fun b => image.bytes (sizeofAppfsFile + b) + 1
  have hlen : sizeofAppfsFile ≤ image.len := image.header
  have hne : image.len ≠ sizeofAppfsFile := by
    intro heq
    rw [heq] at h4
    exact h4 (by decide)
  have hn := image.nbyte_chunkAt sizeofAppfsFile (Nat.sub_le image.len sizeofAppfsFile)
  obtain ⟨w, hw, hwn, -⟩ := (image.chunk_chunkAt sizeofAppfsFile (Nat.zero_le _) (Nat.dvd_zero 4)).header_written stack
    (by rw [image.nbyte_chunkAt 0 hlen]) hacc
    (by rw [image.nbyte_chunkAt 0 hlen]; exact fun k h1 h2 => absurd h1 (Nat.not_le_of_lt h2))
    (by rw [image.nbyte_chunkAt 0 hlen]; exact hheader)
  obtain ⟨w', hw', hwn', hbuffer⟩ :=
    (image.chunk_chunkAt (image.len - sizeofAppfsFile) hlen (by decide)).written dev stack
      (s := { s.accepted (AppfsFile.ofBytes image.bytes) code data with errno := none }) (by decide) (by exact nofun)
      (by rw [hn]; exact fun k h1 h2 => hall k h1 (by unfold sizeofAppfsFile at *; omega))
      (by rw [hn, Nat.add_sub_cancel' hlen]; exact hlast)
  have hwn : w.nbyte.toNat = sizeofAppfsFile := by rw [hwn, image.nbyte_chunkAt 0 hlen]
  have hwn' : w'.nbyte.toNat = image.len - sizeofAppfsFile := by rw [hwn', hn]
  rw [hn] at hbuffer
  let p := image.cut stack sizeofAppfsFile le_rfl hlen (by decide)
  have hbytes : installAll dev symbols s (p.first :: p.later) =
      some (slice w.buffer 0 sizeofAppfsFile ++ slice w'.buffer 0 (image.len - sizeofAppfsFile)) := by
    change installAll dev symbols s [(image.chunkAt 0 sizeofAppfsFile, stack),
      (image.chunkAt sizeofAppfsFile (image.len - sizeofAppfsFile), stack)] = _
    unfold installAll
    rw [hw]
    unfold installAll
    dsimp only
    rw [hw']
    dsimp only [installAll, Option.map_some]
    rw [hwn, hwn', List.append_nil]
  -- the last byte
  have hrelocated := hind.relocated p _ hbytes
  rw [List.drop_left' (Cafs.length_slice _ _ _)] at hrelocated
  have hbyte := congrArg (fun bytes => bytes[image.len - sizeofAppfsFile - 1]?) hrelocated
  have hlast' : sizeofAppfsFile + (image.len - sizeofAppfsFile - 1) = image.len - 1 := by omega
  have h60 : sizeofAppfsFile / 4 * 4 = sizeofAppfsFile := by decide
  rw [getElem?_slice (by omega), getElem?_slice (by omega), Nat.zero_add, hbuffer, if_neg (by omega), hlast'] at hbyte
  unfold Image.relocated at hbyte
  rw [if_neg (by omega)] at hbyte
  have hsucc := congrArg UInt8.toNat (Option.some.inj hbyte)
  change (image.bytes (sizeofAppfsFile + (image.len - sizeofAppfsFile - 1)) + 1).toNat = _ at hsucc
  have hlt := (image.bytes (image.len - 1)).toNat_lt
  rw [hlast', UInt8.toNat_add] at hsucc
  change (_ + 1) % 256 = _ at hsucc
  omega

end

end

/-- The partition of an image makes no difference exactly if a symbol is missing, the image ends beyond the bound, or it
ends with a whole word and no word of it begins beyond the bound. -/
theorem Image.independent_iff (dev : Device) (symbols : List (BitVec 32)) (image : Image) (s : Session)
    (code data : Store.Place)
    (hacc : HeaderAccepted dev symbols s.store (AppfsFile.ofBytes image.bytes) code data) :
    image.Independent dev symbols s (installHandle (AppfsFile.ofBytes image.bytes) code data) ↔
      ¬ (installHandle (AppfsFile.ofBytes image.bytes) code data).Resolves symbols image.bytes 15 (image.len / 4) ∨
        ¬ (installHandle (AppfsFile.ofBytes image.bytes) code data).Passes image.len ∨
          4 ∣ image.len ∧ ∀ e, sizeofAppfsFile ≤ e → e ≤ image.len → 4 ∣ e →
            (installHandle (AppfsFile.ofBytes image.bytes) code data).Passes e := by
  constructor
  · intro hind
    by_contra hnot
    push Not at hnot
    obtain ⟨hall, hlast, hwords⟩ := hnot
    have hwhole := image.accepted_whole (fun _ => 0) hacc hall hlast
    by_cases hpass : ∀ e, sizeofAppfsFile ≤ e → e ≤ image.len → 4 ∣ e →
        (installHandle (AppfsFile.ofBytes image.bytes) code data).Passes e
    · refine image.lost_bytes hacc hall hlast (hpass _ le_rfl image.header (by decide)) (fun h4 => ?_) hind
      obtain ⟨e, hheader, hle, he, hbeyond⟩ := hwords h4
      exact hbeyond (hpass e hheader hle he)
    · push Not at hpass
      obtain ⟨e, hheader, hle, he, hbeyond⟩ := hpass
      have hcut := (hind.outcome (image.whole fun _ => 0) (image.cut (fun _ => 0) e hheader hle he)).symm.trans hwhole
      have hends := ((installAll_isSome_iff (image.cut (fun _ => 0) e hheader hle he).header
        (image.cut (fun _ => 0) e hheader hle he).splits hacc).mp hcut).2.1
      change (installHandle (AppfsFile.ofBytes image.bytes) code data).Passes (0 + (image.chunkAt 0 e).nbyte.toNat) at hends
      rw [image.nbyte_chunkAt 0 hle, Nat.zero_add] at hends
      exact hbeyond hends
  · intro hcond
    have hiff : ∀ p : image.Partition, (installAll dev symbols s (p.first :: p.later)).isSome = true ↔
        (installHandle (AppfsFile.ofBytes image.bytes) code data).Resolves symbols image.bytes 15 (image.len / 4) ∧
          (installHandle (AppfsFile.ofBytes image.bytes) code data).Passes image.len := by
      intro p
      rw [installAll_isSome_iff p.header p.splits hacc]
      refine and_congr_right fun hall => ⟨p.splits.passes_len (List.cons_ne_nil _ _), fun hlast => ?_⟩
      obtain ⟨-, hwords⟩ := (hcond.resolve_left (not_not.mpr hall)).resolve_left (not_not.mpr hlast)
      exact p.ends hlast hwords
    refine ⟨fun p p' => Bool.eq_iff_iff.mpr ((hiff p).trans (hiff p').symm), fun p bytes hbytes => ?_⟩
    obtain ⟨hall, hlast⟩ := (hiff p).mp (Option.isSome_iff_exists.mpr ⟨bytes, hbytes⟩)
    obtain ⟨h4, -⟩ := (hcond.resolve_left (not_not.mpr hall)).resolve_left (not_not.mpr hlast)
    exact installAll_bytes p.header p.splits hacc h4 hbytes

/-- An application for the flash of 61 bytes. -/
def oddFile : AppfsFile :=
  { (image 0x61 appfsExecOptionsFlash 1000).file with codeSize := 61 }

def oddImage : Image where
  bytes i := (oddFile.toBytes 0 0).getD i 0x7F
  len := 61
  header := by decide
  fits := by decide

theorem headerAccepted_oddImage :
    HeaderAccepted smallDevice [] freshSession.store (AppfsFile.ofBytes oddImage.bytes) ⟨0, 0, [0]⟩ ⟨0, 0x10000000, [0]⟩ :=
  ⟨by decide, by decide, by decide⟩

theorem independent_iff_oddImage :
    oddImage.Independent smallDevice [] freshSession
        (installHandle (AppfsFile.ofBytes oddImage.bytes) ⟨0, 0, [0]⟩ ⟨0, 0x10000000, [0]⟩) ↔
      ¬ (installHandle (AppfsFile.ofBytes oddImage.bytes) ⟨0, 0, [0]⟩ ⟨0, 0x10000000, [0]⟩).Resolves [] oddImage.bytes 15
          (oddImage.len / 4) ∨
        ¬ (installHandle (AppfsFile.ofBytes oddImage.bytes) ⟨0, 0, [0]⟩ ⟨0, 0x10000000, [0]⟩).Passes oddImage.len ∨
          4 ∣ oddImage.len ∧ ∀ e, sizeofAppfsFile ≤ e → e ≤ oddImage.len → 4 ∣ e →
            (installHandle (AppfsFile.ofBytes oddImage.bytes) ⟨0, 0, [0]⟩ ⟨0, 0x10000000, [0]⟩).Passes e :=
  Image.independent_iff smallDevice [] oddImage freshSession ⟨0, 0, [0]⟩ ⟨0, 0x10000000, [0]⟩ headerAccepted_oddImage

/-- The last byte of the image is lost. -/
theorem not_independent : ¬ ∀ (dev : Device) (symbols : List (BitVec 32)) (image : Image) (s : Session)
    (code data : Store.Place), HeaderAccepted dev symbols s.store (AppfsFile.ofBytes image.bytes) code data →
      image.Independent dev symbols s (installHandle (AppfsFile.ofBytes image.bytes) code data) := by
  intro h
  refine oddImage.lost_bytes headerAccepted_oddImage ?_ ?_ ?_ (by decide)
    (h smallDevice [] oddImage freshSession ⟨0, 0, [0]⟩ ⟨0, 0x10000000, [0]⟩ headerAccepted_oddImage)
  · exact fun k h1 h2 => absurd h1 (Nat.not_le_of_lt h2)
  · unfold InstallHandle.Passes
    decide
  · unfold InstallHandle.Passes
    decide

end Appfs

end CoActionOS
