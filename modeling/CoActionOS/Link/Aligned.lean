import CoActionOS.Link.ReadWrite

/-!
# Sessions stay aligned

Every sound call ends with both channels empty and the device waiting for the next command, whatever call
came before it.  So a session of such calls is the calls made on the device's own system, one after the
other.
-/

namespace CoActionOS

namespace Link

open Proc Surroundings

variable {S : Type} {sys : DeviceSystem S} {s : S} {o : S × HostRet} {d : LinkData}

/-! ### Every call -/

section

variable {pathMax : Nat} {phyHandle : Word} {junk : List UInt8} {ls : LinkState}

theorem AnswersTurn.map {k : Host HostRet} {fix : HostRet → HostRet}
    (h : AnswersTurn sys pathMax phyHandle k s ls o) (hfix : ∀ r, r.Reports o.2 → (fix r).Reports o.2) :
    AnswersTurn sys pathMax phyHandle (k.bind fun r => ret (fix r)) s ls o := by
  intro α β Post f g hnext
  rw [Proc.bind_assoc]
  exact h α β Post _ g fun r ls' hr hneg => hnext (fix r) ls' (hfix r hr) hneg

theorem minusOneOrMore_eq {w : Word} (h : MinusOneOrMore w) : isNegative w = isMinusOne w := by
  unfold MinusOneOrMore at h
  cases hneg : isNegative w with
  | true =>
    rw [h hneg]
    rfl
  | false =>
    have hpos := of_decide_eq_false hneg
    exact (decide_eq_false (by omega)).symm

/-- A sound call and the turn of the device's loop that it meets: both come to an end with nothing under way,
and the host reports what the call gives on the device's own system. -/
theorem answersTurn (c : HostCall) (s : S) (ls : LinkState)
    (hsound : c.Sound sys pathMax phyHandle (isNegative ls.data.reply.err) s) :
    AnswersTurn sys pathMax phyHandle (c.run junk) s ls (c.locally sys s) := by
  cases c with
  | «open» path flags mode =>
    apply answersTurn_of_op (n := 3) rfl (by decide) (by decide)
    intro d hcmd hword _
    obtain rfl := hword 1 flags rfl
    obtain rfl := hword 2 mode rfl
    exact answers_pathCommand (c := fun path => .open path (d.word 1) (d.word 2)) hsound
      (hword 0 _ rfl) hcmd rfl rfl (handsOn_reportDev _)
  | close fildes =>
    apply answersTurn_of_op (n := 1) rfl (by decide) (by decide)
    intro d hcmd hword _
    exact answers_close (hword 0 _ rfl) hsound hcmd
  | read fildes nbyte =>
    obtain ⟨hphy, hnbyte, hreads⟩ := hsound
    apply answersTurn_of_op (n := 2) rfl (by decide) (by decide)
    intro d hcmd hword _
    exact answers_read (hword 0 _ rfl) (hword 1 _ rfl) hcmd hphy hnbyte hreads
  | write fildes buf =>
    obtain ⟨hphy, hlen, hwrites⟩ := hsound
    apply answersTurn_of_op (n := 2) rfl (by decide) (by decide)
    intro d hcmd hword _
    exact answers_write (hword 0 _ rfl) (hword 1 _ rfl) hcmd hphy hlen hwrites
  | ioctl fildes request' argp arg delay =>
    obtain ⟨hphy, hmalloc⟩ := hsound
    apply answersTurn_of_op (n := 3) rfl (by decide) (by decide)
    intro d hcmd hword _
    exact answers_ioctl (hword 0 _ rfl) (hword 1 _ rfl) (hword 2 _ rfl) hcmd hphy hmalloc
  | lseek fildes offset whence =>
    apply AnswersTurn.map
    · apply answersTurn_of_op (n := 3) rfl (by decide) (by decide)
      intro d hcmd hword _
      obtain rfl := hword 0 fildes rfl
      obtain rfl := hword 1 offset rfl
      obtain rfl := hword 2 whence rfl
      exact answers_operation hcmd rfl rfl handsOn_report
    · intro r hr
      refine ⟨hr.ret, hr.data, fun e he => ?_⟩
      dsimp only
      rw [hr.errno e he]
      rfl
  | stat path =>
    obtain ⟨hfits, hneg⟩ := hsound
    apply answersTurn_of_op (n := 1) rfl (by decide) (by decide)
    intro d hcmd hword _
    exact answers_statCommand hfits (hword 0 _ rfl) hneg
  | fstat fildes =>
    apply answersTurn_of_op (n := 1) rfl (by decide) (by decide)
    intro d hcmd hword _
    exact answers_fstat (hword 0 _ rfl) hsound
  | mkdir path mode =>
    obtain ⟨hfits, hminus⟩ := hsound
    apply answersTurn_of_op (n := 2) rfl (by decide) (by decide)
    intro d hcmd hword _
    obtain rfl := hword 1 mode rfl
    exact answers_pathCommand (c := fun path => .mkdir path (d.word 1)) hfits
      (hword 0 _ rfl) hcmd rfl (minusOneOrMore_eq hminus) (handsOn_reportAlways _)
  | rmdir path =>
    obtain ⟨hfits, hminus⟩ := hsound
    apply answersTurn_of_op (n := 1) rfl (by decide) (by decide)
    intro d hcmd hword _
    exact answers_pathCommand (c := .rmdir) hfits (hword 0 _ rfl) hcmd rfl (minusOneOrMore_eq hminus)
      (handsOn_reportAlways _)
  | opendir dirname =>
    apply answersTurn_of_op (n := 1) rfl (by decide) (by decide)
    intro d hcmd hword _
    exact answers_pathCommand (c := .opendir) hsound (hword 0 _ rfl) hcmd rfl rfl (handsOn_reportAlways _)
  | readdir dirp =>
    apply answersTurn_of_op (n := 1) rfl (by decide) (by decide)
    intro d hcmd hword _
    exact answers_readdir (hword 0 _ rfl) hsound
  | closedir dirp =>
    apply answersTurn_of_op (n := 1) rfl (by decide) (by decide)
    intro d hcmd hword _
    obtain rfl := hword 0 dirp rfl
    exact answers_operation hcmd rfl rfl (handsOn_reportAlways _)
  | rename oldPath newPath =>
    obtain ⟨hfits, hfits'⟩ := hsound
    apply answersTurn_of_op (n := 2) rfl (by decide) (by decide)
    intro d hcmd hword _
    exact answers_rename hfits hfits' (hword 0 _ rfl) (hword 1 _ rfl) hcmd
  | chown path owner group =>
    obtain ⟨hfits, hbefore, hminus⟩ := hsound
    apply answersTurn_of_op (n := 3) rfl (by decide) (by decide)
    intro d hcmd hword hreply
    obtain rfl := hword 1 owner rfl
    obtain rfl := hword 2 group rfl
    exact answers_attrCommand (c := fun path => .chown path (d.word 1) (d.word 2)) hfits (hword 0 _ rfl) hcmd
      (hreply ▸ hbefore) rfl (minusOneOrMore_eq hminus)
  | chmod path mode =>
    obtain ⟨hfits, hbefore, hminus⟩ := hsound
    apply answersTurn_of_op (n := 2) rfl (by decide) (by decide)
    intro d hcmd hword hreply
    obtain rfl := hword 1 mode rfl
    exact answers_attrCommand (c := fun path => .chmod path (d.word 1)) hfits (hword 0 _ rfl) hcmd
      (hreply ▸ hbefore) rfl (minusOneOrMore_eq hminus)
  | unlink path =>
    apply answersTurn_of_op (n := 1) rfl (by decide) (by decide)
    intro d hcmd hword _
    exact answers_unlink hsound (hword 0 _ rfl) hcmd
  | symlink oldPath newPath =>
    obtain ⟨hfits, hfits', hzero⟩ := hsound
    apply answersTurn_of_op (n := 2) rfl (by decide) (by decide)
    intro d hcmd hword _
    exact answers_symlink hfits hfits' (hword 0 _ rfl) (hword 1 _ rfl) hcmd hzero
  | exec file =>
    apply answersTurn_of_op (n := 1) rfl (by decide) (by decide)
    intro d hcmd hword _
    exact answers_pathCommand (c := .processStart) hsound (hword 0 _ rfl) hcmd rfl rfl
      (handsOn_reportAlways _)
  | mkfs path =>
    apply answersTurn_of_op (n := 1) rfl (by decide) (by decide)
    intro d hcmd hword _
    exact answers_mkfs hsound (hword 0 _ rfl) hcmd
  | readserialno len =>
    obtain ⟨hpos, hshort, hlen⟩ := hsound
    apply answersTurn_of_op (n := 0) rfl (by decide) (by decide)
    intro d hcmd hword _
    exact answers_readserialno hpos hshort hlen

end

/-! ### Sessions -/

section

variable {pathMax : Nat} {phyHandle : Word} {junk : List UInt8}

/-- Call by call: the device's part of a call ends where the next one begins. -/
theorem meets_session {α β : Type} {Post : α → Unit → β → S → Prop} (calls : List HostCall) (s : S)
    (ls : LinkState) (hsound : SoundAll sys pathMax phyHandle (isNegative ls.data.reply.err) calls s)
    (f : List HostRet → Host α) (g : LinkState → Dev β)
    (h : ∀ rs ls', List.Forall₂ HostRet.Reports rs (locallyAll sys calls s).2 →
      Meets sys Post (f rs) (locallyAll sys calls s).1 (g ls')) :
    Meets sys Post ((session junk calls).bind f) s
      ((deviceLoop pathMax phyHandle calls.length ls).bind g) := by
  induction calls generalizing s ls f with
  | nil => exact h [] ls .nil
  | cons c cs ih =>
    obtain ⟨hcall, hrest⟩ := hsound
    unfold session
    rw [List.length_cons, deviceLoop, Proc.bind_assoc, Proc.bind_assoc]
    apply answersTurn c s ls hcall
    intro r ls' hr hneg
    rw [Proc.bind_assoc]
    apply ih _ ls' (hneg ▸ hrest)
    intro rs ls'' hrs
    exact h (r :: rs) ls'' (.cons hr hrs)

/-- The host's calls and as many turns of the device's loop, with nothing under way. -/
def conversation (sys : DeviceSystem S) (pathMax : Nat) (phyHandle : Word) (junk : List UInt8)
    (calls : List HostCall) (s : S) (ls : LinkState) :
    Talk Unit Unit (List HostRet) Unit DevCall DevResult LinkState S :=
  ⟨hostSide.fresh () (session junk calls),
    (systemSide sys).fresh s (deviceLoop pathMax phyHandle calls.length ls), [], []⟩

/-- Every run of a session of sound calls comes to an end and is then closed, and the host is the last to return:
each call has reported what it gives on the device's own system, which is in the state that the calls leave it
in there, and no packet of one call has been left to the next. -/
theorem session_aligned (sys : DeviceSystem S) (pathMax : Nat) (phyHandle : Word) (junk : List UInt8)
    (calls : List HostCall) (s : S) (ls : LinkState)
    (hsound : SoundAll sys pathMax phyHandle (isNegative ls.data.reply.err) calls s) :
    Talk.Completes hostSide (systemSide sys)
      (fun rs _ _ s' => List.Forall₂ HostRet.Reports rs (locallyAll sys calls s).2 ∧
        s' = (locallyAll sys calls s).1)
      Talk.LeftOpen (conversation sys pathMax phyHandle junk calls s ls) := by
  apply Talk.Ends.completes
  unfold conversation
  rw [← bind_ret (session junk calls), ← bind_ret (deviceLoop pathMax phyHandle calls.length ls)]
  apply meets_session calls s ls hsound
  intro rs ls' hrs
  exact .closed ⟨hrs, rfl⟩

/-- A device with one file, whose content is the state, and no attributes. -/
def oneFile : DeviceSystem (List UInt8) := fun s c =>
  match c with
  | .open .. => (s, ⟨3, []⟩)
  | .write _ bs => (s ++ bs, ⟨BitVec.ofNat 32 bs.length, []⟩)
  | .read _ nbyte => (s, ⟨BitVec.ofNat 32 (s.take nbyte).length, s.take nbyte⟩)
  | .stat _ => (s, ⟨-1, []⟩)
  | .errno => (s, ⟨2, []⟩)
  | _ => (s, ⟨0, []⟩)

/-- The file is opened, written in two packets and read back, a `stat` fails, and the file is unlinked. -/
def oneFileCalls : List HostCall :=
  [.open [97] 2 0, .write 3 (List.replicate 61 7), .read 3 20, .stat [98], .unlink [97]]

theorem session_aligned_oneFile :
    SoundAll oneFile 256 0 false oneFileCalls [] ∧
    Talk.Completes hostSide (systemSide oneFile)
      (fun rs _ _ s' => List.Forall₂ HostRet.Reports rs (locallyAll oneFile oneFileCalls []).2 ∧
        s' = (locallyAll oneFile oneFileCalls []).1)
      Talk.LeftOpen
      (conversation oneFile 256 0 [] oneFileCalls [] ⟨[], ⟨[], ⟨0, 0⟩, []⟩⟩) := by
  have hsound : SoundAll oneFile 256 0 false oneFileCalls [] := by
    refine ⟨⟨by decide, by decide⟩, ⟨by decide, by decide, ?_⟩, ⟨by decide, by decide, ?_⟩,
      ⟨⟨by decide, by decide⟩, ?_⟩, ⟨by decide, by decide⟩, trivial⟩
    · exact ⟨by decide, fun _ => ⟨by decide, fun h => absurd h (by decide)⟩⟩
    · exact ⟨by decide, fun h => absurd h.2 (by decide)⟩
    · exact fun _ => by decide
  exact ⟨hsound, session_aligned oneFile 256 0 [] oneFileCalls [] _ hsound⟩

end

end Link

end CoActionOS
