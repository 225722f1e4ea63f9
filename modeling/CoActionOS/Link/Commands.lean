import CoActionOS.Link.Session

/-!
# The commands

Each command of the device against the rest of the call that has sent it, when the operation has come.  The
commands that take a path or a descriptor and make one call of the system have one rule,
`answers_operation`; the others send data of their own, before or after the reply.
-/

namespace CoActionOS

namespace Link

open Proc Surroundings

variable {S : Type} {sys : DeviceSystem S} {s : S} {o : S × HostRet} {d : LinkData}

/-! ### Outcomes -/

theorem state_performed {c : DevCall} {failed failed' : Word → Bool} {result : Word → Int}
    {data : DevResult → List UInt8} (hfailed : failed' (sys s c).2.ret = failed (sys s c).2.ret) :
    (DeviceSystem.operation sys c failed' result data s).1 = (performed sys c failed d s).1 := by
  unfold performed DeviceSystem.operation noted
  dsimp only
  rw [hfailed]
  split_ifs <;> rfl

/-- What the host makes of the reply reports the operation. -/
theorem reports_performed {c : DevCall} {failed failed' : Word → Bool} {result : Word → Int}
    {data : DevResult → List UInt8} {r : HostRet}
    (hfailed : failed' (sys s c).2.ret = failed (sys s c).2.ret)
    (hret : r.ret = result (sys s c).2.ret) (hdata : r.data = data (sys s c).2)
    (herrno : failed' (sys s c).2.ret = true →
      r.errno = some (performed sys c failed d s).2.reply.errNumber) :
    r.Reports (DeviceSystem.operation sys c failed' result data s).2 := by
  unfold DeviceSystem.operation DeviceSystem.failure
  dsimp only
  split_ifs with h
  · refine ⟨hret, hdata, ?_⟩
    rintro e he
    obtain rfl := Option.some.inj he
    rw [herrno h]
    unfold performed noted
    rw [if_pos (hfailed.symm.trans h)]
    rfl
  · refine ⟨hret, hdata, ?_⟩
    rintro e he
    cases he

theorem ret_operation {c : DevCall} {failed : Word → Bool} {result : Word → Int}
    {data : DevResult → List UInt8} :
    (DeviceSystem.operation sys c failed result data s).2.ret = result (sys s c).2.ret := by
  unfold DeviceSystem.operation DeviceSystem.failure
  dsimp only
  split_ifs <;> rfl

theorem operation_of_ok {c : DevCall} {failed : Word → Bool} {result : Word → Int}
    {data : DevResult → List UInt8} (h : failed (sys s c).2.ret = false) :
    DeviceSystem.operation sys c failed result data s =
      ((sys s c).1, ⟨result (sys s c).2.ret, none, data (sys s c).2⟩) := by
  unfold DeviceSystem.operation
  dsimp only
  rw [h, if_neg Bool.false_ne_true]

theorem operation_of_failed {c : DevCall} {failed : Word → Bool} {result : Word → Int}
    {data : DevResult → List UInt8} (h : failed (sys s c).2.ret = true) :
    DeviceSystem.operation sys c failed result data s =
      DeviceSystem.failure sys (result (sys s c).2.ret) (data (sys s c).2) (sys s c).1 := by
  unfold DeviceSystem.operation
  dsimp only
  rw [if_pos h]

theorem isNegative_orDevError (w : Word) :
    isNegative w = decide (DeviceSystem.orDevError w < 0) := by
  unfold DeviceSystem.orDevError
  cases h : isNegative w with
  | true => rfl
  | false => exact h.symm

/-- What the host makes of a reply: the result, and the error number if the operation has failed. -/
structure HandsOn (rep : LinkReply → HostRet) (failed : Word → Bool) (result : Word → Int) : Prop where
  ret : ∀ reply, (rep reply).ret = result reply.err
  data : ∀ reply, (rep reply).data = []
  errno : ∀ reply, failed reply.err = true → (rep reply).errno = some reply.errNumber
  negative : ∀ w, isNegative w = decide (result w < 0)

theorem handsOn_report : HandsOn report isNegative BitVec.toInt where
  ret _ := rfl
  data _ := rfl
  errno reply h := by
    unfold report
    rw [if_pos h]
  negative _ := rfl

theorem handsOn_reportAlways (failed : Word → Bool) :
    HandsOn reportAlways failed BitVec.toInt where
  ret _ := rfl
  data _ := rfl
  errno _ _ := rfl
  negative _ := rfl

theorem handsOn_reportDev (failed : Word → Bool) :
    HandsOn reportDev failed DeviceSystem.orDevError where
  ret _ := rfl
  data _ := rfl
  errno _ _ := rfl
  negative := isNegative_orDevError

/-- As `link_write` and `link_close` do it. -/
theorem handsOn_devErrorOr :
    HandsOn (fun reply =>
      if isNegative reply.err then ⟨linkDevError, some reply.errNumber, []⟩ else report reply)
      isNegative DeviceSystem.orDevError where
  ret reply := by
    unfold DeviceSystem.orDevError
    split_ifs <;> rfl
  data reply := by split_ifs <;> rfl
  errno reply h := by rw [if_pos h]
  negative := isNegative_orDevError

/-- An operation and its reply. -/
theorem answers_operation {c : DevCall} {failed failed' : Word → Bool} {result : Word → Int}
    {rep : LinkReply → HostRet} {onFailure : OnFailure} (hcmd : d.cmd ≠ 0)
    (hc : (systemSide sys).answer s c = sys s c)
    (hfailed : failed' (sys s c).2.ret = failed (sys s c).2.ret) (hrep : HandsOn rep failed' result) :
    Answers sys (readReply onFailure fun reply => ret (rep reply)) s
      ((perform c failed d).bind finish)
      (DeviceSystem.operation sys c failed' result DeviceSystem.noData s) := by
  apply answers_perform hc
  · intro d' hop
    exact open_finish (cmd_of_op hop ▸ hcmd)
  · have herr : (performed sys c failed d s).2.reply.err = (sys s c).2.ret := err_performed c failed
    apply answers_finish
    · rw [cmd_of_op (op_performed c failed)]
      exact hcmd
    · have hstate : (DeviceSystem.operation sys c failed' result DeviceSystem.noData s).1 =
          (performed sys c failed d s).1 := state_performed hfailed
      rw [← hstate]
      apply answers_ret
      · apply reports_performed hfailed
        · rw [hrep.ret, herr]
        · exact hrep.data _
        · intro h
          exact hrep.errno _ (herr.symm ▸ h)
      · rw [ret_operation, ← hrep.negative, ← herr]
        rfl

/-! ### Commands that take a path -/

section

variable {pathMax : Nat} {path : List UInt8} {size : Word} {onFailure onFailure' : OnFailure}
  {failed failed' : Word → Bool} {result : Word → Int} {rep : LinkReply → HostRet}

theorem answers_pathCommand {c : List UInt8 → DevCall} (hfits : PathFits pathMax path)
    (hsize : size = pathSize path) (hcmd : d.cmd ≠ 0)
    (hc : (systemSide sys).answer s (c (pathBytes path)) = sys s (c (pathBytes path)))
    (hfailed : failed' (sys s (c (pathBytes path))).2.ret = failed (sys s (c (pathBytes path))).2.ret)
    (hrep : HandsOn rep failed' result) :
    Answers sys (sendPath path onFailure (readReply onFailure' fun reply => ret (rep reply))) s
      ((pathCommand pathMax size c failed d).bind finish)
      (DeviceSystem.operation sys (c (pathBytes path)) failed' result DeviceSystem.noData s) := by
  apply answers_path hfits hsize
  · exact open_call _ _
  · exact answers_operation hcmd hc hfailed hrep

theorem answers_mkfs (hfits : PathFits pathMax path) (hsize : d.word 0 = pathSize path)
    (hcmd : d.cmd ≠ 0) :
    Answers sys
      (sendPath path onFailure
        (wait 100 (readReply onFailure' fun reply => ret (reportAlways reply)))) s
      ((linkCmdMkfs pathMax d).bind finish)
      (DeviceSystem.operation sys (.mkfs (pathBytes path)) isNegative BitVec.toInt
        DeviceSystem.noData s) := by
  apply answers_path hfits hsize
  · exact open_call _ _
  · apply answers_wait
    exact answers_operation hcmd rfl rfl (handsOn_reportAlways isNegative)

theorem answers_unlink (hfits : PathFits pathMax path) (hsize : d.word 0 = pathSize path)
    (hcmd : d.cmd ≠ 0) :
    Answers sys (sendPath path onFailure (readReply onFailure' fun reply => ret (report reply))) s
      ((linkCmdUnlink pathMax d).bind finish)
      (DeviceSystem.operation sys (.unlink (pathBytes path)) isNegative BitVec.toInt
        DeviceSystem.noData s) := by
  have hret : ¬((pathBytes path).length : Int) < 0 := by omega
  apply answers_path hfits hsize
  · dsimp only
    rw [if_neg hret]
    exact open_call _ _
  · dsimp only
    rw [if_neg hret]
    exact answers_operation hcmd rfl rfl handsOn_report

/-- The reply before must not have been an error. -/
theorem answers_attrCommand {c : List UInt8 → DevCall} (hfits : PathFits pathMax path)
    (hsize : d.word 0 = pathSize path) (hcmd : d.cmd ≠ 0) (hbefore : isNegative d.reply.err = false)
    (hc : (systemSide sys).answer s (c (pathBytes path)) = sys s (c (pathBytes path)))
    (hfailed : isNegative (sys s (c (pathBytes path))).2.ret =
      isMinusOne (sys s (c (pathBytes path))).2.ret) :
    Answers sys
      (sendPath path onFailure (readReply onFailure' fun reply => ret (reportAlways reply))) s
      ((attrCommand pathMax c d).bind finish)
      (DeviceSystem.operation sys (c (pathBytes path)) isNegative BitVec.toInt
        DeviceSystem.noData s) := by
  have hword : BitVec.ofInt 32 (pathBytes path).length = d.word 0 :=
    (ofInt_length_pathBytes path).trans hsize.symm
  apply answers_path hfits hsize
  · dsimp only
    rw [if_neg (not_not.mpr hword), hbefore, if_neg Bool.false_ne_true]
    exact open_call _ _
  · dsimp only
    rw [if_neg (not_not.mpr hword), hbefore, if_neg Bool.false_ne_true]
    exact answers_operation hcmd hc hfailed (handsOn_reportAlways isNegative)

theorem answers_rename {pathNew : List UInt8} {onFailure'' : OnFailure} (hfits : PathFits pathMax path)
    (hfits' : PathFits pathMax pathNew) (hsize : d.word 0 = pathSize path)
    (hsize' : d.word 1 = pathSize pathNew) (hcmd : d.cmd ≠ 0) :
    Answers sys
      (sendPath path onFailure
        (sendPath pathNew onFailure' (readReply onFailure'' fun reply => ret (report reply)))) s
      ((linkCmdRename pathMax d).bind finish)
      (DeviceSystem.operation sys (.rename (pathBytes path) (pathBytes pathNew)) isNegative BitVec.toInt
        DeviceSystem.noData s) := by
  have hword : BitVec.ofInt 32 (pathBytes path).length = d.word 0 :=
    (ofInt_length_pathBytes path).trans hsize.symm
  have hword' : BitVec.ofInt 32 (pathBytes pathNew).length = (d.setErr 0).word 1 :=
    (ofInt_length_pathBytes pathNew).trans hsize'.symm
  have hzero : isNegative 0 = false := by decide
  apply answers_path hfits hsize
  · exact (open_receiveInto _ _ _).bind _
  · dsimp only
    rw [if_neg (not_not.mpr hword)]
    apply answers_path hfits' hsize'
    · dsimp only
      rw [if_neg (not_not.mpr hword'), LinkData.err_setErr, hzero, if_neg Bool.false_ne_true]
      exact open_call _ _
    · dsimp only
      rw [if_neg (not_not.mpr hword'), LinkData.err_setErr, hzero, if_neg Bool.false_ne_true]
      exact answers_operation hcmd rfl rfl handsOn_report

end

/-! ### Commands that take a descriptor -/

section

variable {phyHandle fildes : Word} {onFailure onFailure' : OnFailure}

theorem answers_close (hword : d.word 0 = fildes) (hphy : fildes ≠ phyHandle) (hcmd : d.cmd ≠ 0) :
    Answers sys
      (readReply onFailure fun reply => ret
        (if isNegative reply.err then ⟨linkDevError, some reply.errNumber, []⟩ else report reply)) s
      ((linkCmdClose phyHandle d).bind finish)
      (DeviceSystem.operation sys (.close fildes) isNegative DeviceSystem.orDevError
        DeviceSystem.noData s) := by
  subst hword
  unfold linkCmdClose
  rw [if_neg hphy]
  exact answers_operation hcmd rfl rfl handsOn_devErrorOr

/-- The two paths come one after the other. -/
theorem answers_symlink {pathMax : Nat} {oldPath newPath : List UInt8} (hfits : PathFits pathMax oldPath)
    (hfits' : PathFits pathMax newPath) (hsize : d.word 0 = pathSize oldPath)
    (hsize' : d.word 1 = pathSize newPath) (hcmd : d.cmd ≠ 0)
    (hzero : (sys s (.link (pathBytes oldPath) (pathBytes newPath))).2.ret = 0) :
    Answers sys
      ((linkProtocolMasterwrite (oldPath ++ [0]) (oldPath ++ [0]).length).bind fun len =>
        if BitVec.ofInt 32 len ≠ pathSize oldPath then ret ⟨-1, none, []⟩
        else sendPath newPath onFailure (readReply onFailure' fun reply => ret (report reply))) s
      ((linkCmdLink pathMax d).bind finish)
      (DeviceSystem.operation sys (.link (pathBytes oldPath) (pathBytes newPath)) isNegative
        BitVec.toInt DeviceSystem.noData s) := by
  have hword : BitVec.ofInt 32 (oldPath ++ [0]).length = d.word 0 :=
    (ofInt_length_pathBytes oldPath).trans hsize.symm
  apply answers_masterwrite (.inl (hsize ▸ toInt_pathSize hfits))
  · dsimp only
    rw [LinkData.err_setErr, LinkData.word_setErr, if_pos hword]
    exact (open_receiveInto _ _ _).bind _
  · dsimp only
    rw [LinkData.err_setErr, LinkData.word_setErr, if_pos hword]
    have hsent : BitVec.ofInt 32 (oldPath ++ [0]).length = pathSize oldPath := ofInt_length_pathBytes oldPath
    rw [if_neg (not_not.mpr hsent)]
    apply answers_path hfits' hsize'
    · exact open_call _ _
    · apply answers_call rfl
      · exact open_finish hcmd
      · change Answers sys _ _ (finish _) _
        apply answers_finish
        · exact hcmd
        · have hok : isNegative (sys s (.link (pathBytes oldPath) (pathBytes newPath))).2.ret = false := by
            rw [hzero]
            decide
          rw [operation_of_ok hok, hzero]
          apply answers_ret (o := (_, _))
          · exact ⟨rfl, rfl, fun e he => by cases he⟩
          · rfl

/-! ### Commands that send data -/

theorem reply_clearCmd (d : LinkData) : d.clearCmd.reply = d.reply := rfl

theorem cmd_clearCmd (d : LinkData) : d.clearCmd.cmd = 0 := by
  unfold LinkData.clearCmd LinkData.cmd
  cases d.op <;> rfl

theorem finish_clearCmd (d : LinkData) : finish d.clearCmd = ret d.clearCmd := by
  unfold finish
  rw [cmd_clearCmd, if_neg (not_not.mpr rfl)]

/-- What is stored of a file's attributes. -/
def statData (r : DevResult) : List UInt8 := if r.ret = 0 then sized linkStatSize r.data else []

/-- The operation, its reply, and the data if there was no error. -/
theorem answers_stat {c : DevCall} (failed : Word → Bool) (stop : Word → Prop) [DecidablePred stop]
    (hc : (systemSide sys).answer s c = sys s c)
    (hfailed : failed (sys s c).2.ret = decide ((sys s c).2.ret ≠ 0))
    (hstop : stop (sys s c).2.ret ↔ (sys s c).2.ret ≠ 0) :
    Answers sys (readReply onFailure readStat) s
      ((call c fun r =>
        (noteErrno (failed r.ret) (d.setErr r.ret)).bind fun d =>
          (sendReply d.clearCmd).bind fun _ =>
            if stop d.reply.err then ret d.clearCmd
            else (linkProtocolSlavewrite (sized linkStatSize r.data) linkStatSize none).bind fun _ =>
              ret d.clearCmd).bind finish)
      (DeviceSystem.operation sys c (fun w => decide (w ≠ 0)) BitVec.toInt statData s) := by
  have hopen : ∀ (d : LinkData) (e : Int → Dev LinkData), ((sendReply d).bind e).Open :=
    fun d e => (open_slavewrite _ _).bind e
  have herr : (performed sys c failed d s).2.reply.err = (sys s c).2.ret := err_performed c failed
  apply answers_call hc
  · rw [Proc.bind_assoc]
    exact open_noteErrno fun d' _ => (hopen _ _).bind _
  · dsimp only
    rw [Proc.bind_assoc]
    apply answers_noteErrno
    · exact fun d' _ => (hopen _ _).bind _
    · change Answers sys _ (performed sys c failed d s).1
        (((sendReply (performed sys c failed d s).2.clearCmd).bind fun _ =>
          if stop (performed sys c failed d s).2.reply.err then
            ret (performed sys c failed d s).2.clearCmd
          else (linkProtocolSlavewrite (sized linkStatSize (sys s c).2.data) linkStatSize none).bind
            fun _ => ret (performed sys c failed d s).2.clearCmd).bind finish) _
      rw [Proc.bind_assoc]
      apply answers_sendReply
      have hstate : (DeviceSystem.operation sys c (fun w => decide (w ≠ 0)) BitVec.toInt statData s).1 =
          (performed sys c failed d s).1 := state_performed hfailed.symm
      rw [← hstate]
      have hend : isNegative (performed sys c failed d s).2.clearCmd.reply.err =
          decide ((DeviceSystem.operation sys c (fun w => decide (w ≠ 0)) BitVec.toInt statData s).2.ret
            < 0) := by
        rw [ret_operation, ← herr]
        rfl
      unfold readStat
      by_cases hzero : (sys s c).2.ret = 0
      · have hdata : statData (sys s c).2 = sized linkStatSize (sys s c).2.data := if_pos hzero
        rw [reply_clearCmd, herr, if_neg fun h => hstop.mp h hzero, if_pos hzero, Proc.bind_assoc]
        apply answers_data
        · rw [length_sized]
        · left
          rw [length_sized]
        · rw [ret_bind, finish_clearCmd]
          apply answers_ret _ hend
          rw [← hdata]
          apply reports_performed (d := d) hfailed.symm
          · rfl
          · rfl
          · intro h
            exact absurd hzero (of_decide_eq_true h)
      · have hdata : statData (sys s c).2 = [] := if_neg hzero
        rw [reply_clearCmd, herr, if_pos (hstop.mpr hzero), if_neg hzero, ret_bind, finish_clearCmd]
        apply answers_ret _ hend
        apply reports_performed hfailed.symm
        · exact congrArg BitVec.toInt herr
        · exact hdata.symm
        · intro _
          rfl

theorem answers_statCommand {pathMax : Nat} {path : List UInt8} (hfits : PathFits pathMax path)
    (hsize : d.word 0 = pathSize path)
    (hneg : (sys s (.stat (pathBytes path))).2.ret ≠ 0 →
      isNegative (sys s (.stat (pathBytes path))).2.ret = true) :
    Answers sys (sendPath path onFailure (readReply onFailure' readStat)) s
      ((linkCmdStat pathMax d).bind finish)
      (DeviceSystem.operation sys (.stat (pathBytes path)) (fun w => decide (w ≠ 0)) BitVec.toInt
        statData s) := by
  have hfailed : isNegative (sys s (.stat (pathBytes path))).2.ret =
      decide ((sys s (.stat (pathBytes path))).2.ret ≠ 0) := by
    by_cases hzero : (sys s (.stat (pathBytes path))).2.ret = 0
    · rw [hzero]
      rfl
    · rw [hneg hzero, decide_eq_true hzero]
  apply answers_path hfits hsize
  · exact open_call _ _
  · apply answers_stat isNegative (fun w => isNegative w = true) rfl hfailed
    rw [hfailed, decide_eq_true_iff]

theorem answers_fstat {fildes : Word} (hword : d.word 0 = fildes)
    (hzero : (sys s (.fstat fildes)).2.ret = 0) :
    Answers sys (readReply onFailure readStat) s ((linkCmdFstat d).bind finish)
      (DeviceSystem.operation sys (.fstat fildes) (fun w => decide (w ≠ 0)) BitVec.toInt statData s) := by
  subst hword
  unfold linkCmdFstat
  apply answers_stat isMinusOne (fun w => w.toInt < -1) rfl
  · rw [hzero]
    rfl
  · rw [hzero]
    decide

/-- The reply to `readdir` is read like the others, which leaves out its second half. -/
theorem answers_longReply {k : LinkReply → Host HostRet} {e : Int → Dev LinkData}
    (h : Answers sys (k d.reply) s (e 16) o) :
    Answers sys (readReply onFailure k) s
      ((linkProtocolSlavewrite (sized 16 (d.reply.bytes ++ d.beyond)) 16 none).bind e) o := by
  have hprefix : d.reply.bytes <+: sized 16 (d.reply.bytes ++ d.beyond) := by
    unfold sized
    rw [List.prefix_take_iff, List.append_assoc]
    exact ⟨List.prefix_append _ _, (by decide : 8 ≤ 16)⟩
  obtain ⟨more, hmore⟩ := hprefix
  have hlen : (d.reply.bytes ++ more).length = 16 := by rw [hmore, length_sized]
  rw [← hmore]
  apply answers_reply
  · rw [hlen]
    rfl
  · rw [hlen]
    decide
  · exact h

theorem answers_readdir {dirp : Word} (hword : d.word 0 = dirp)
    (hneg : (sys s (.readdir dirp)).2.ret ≠ 0 → isNegative (sys s (.readdir dirp)).2.ret = true) :
    Answers sys
      (readReply onFailure fun reply =>
        if isNegative reply.err then ret (reportAlways reply)
        else readData linkDirentSize onFailure' fun data => ret ⟨0, none, data⟩) s
      ((linkCmdReaddir d).bind finish)
      (DeviceSystem.operation sys (.readdir dirp) (fun w => decide (w ≠ 0))
        (fun w => if w = 0 then 0 else -1)
        (fun r => if r.ret = 0 then sized linkDirentSize r.data else []) s) := by
  subst hword
  have hopen : ∀ d : LinkData,
      ((linkProtocolSlavewrite (sized 16 (d.reply.bytes ++ d.beyond)) 16 none : Dev Int)).Open :=
    fun d => open_slavewrite _ _
  apply answers_call rfl
  · rw [Proc.bind_assoc]
    exact open_noteErrno fun d' _ => ((hopen d').bind _).bind _
  dsimp only
  rw [Proc.bind_assoc]
  by_cases hzero : (sys s (.readdir (d.word 0))).2.ret = 0
  · have hfalse : isNegative 0 = false := by decide
    have hclear : isNegative (d.setErr 0).reply.err = false := hfalse
    have hdata : (if (0 : Word) = 0 then sized linkDirentSize (sys s (.readdir (d.word 0))).2.data
        else []) = sized linkDirentSize (sys s (.readdir (d.word 0))).2.data := if_pos rfl
    rw [operation_of_ok (by rw [hzero]; rfl), hzero, hfalse, if_neg Bool.false_ne_true, hdata,
      if_pos rfl]
    apply answers_noteErrno fun d' _ => ((hopen d').bind _).bind _
    rw [Proc.bind_assoc]
    apply answers_longReply
    change Answers sys (if isNegative (d.setErr 0).reply.err then _ else _) _
      (Proc.bind (if (16 : Int) < 0 then _ else if isNegative (d.setErr 0).reply.err then _ else _) _) _
    rw [hclear, if_neg Bool.false_ne_true, if_neg (by decide), if_neg Bool.false_ne_true,
      Proc.bind_assoc]
    apply answers_data
    · rw [length_sized]
    · left
      rw [length_sized]
    · rw [ret_bind, finish_clearCmd]
      apply answers_ret (o := (_, _))
      · exact ⟨rfl, rfl, fun e he => by cases he⟩
      · exact hclear
  · rw [operation_of_failed (decide_eq_true hzero), hneg hzero, if_pos rfl, if_neg hzero, if_neg hzero]
    apply answers_noteErrno fun d' _ => ((hopen d').bind _).bind _
    rw [Proc.bind_assoc]
    apply answers_longReply
    have herr : isNegative (noted sys true (d.setErr (-1)) (sys s (.readdir (d.word 0))).1).2.reply.err =
        true := (by decide : isNegative (-1) = true)
    rw [herr, if_pos rfl, if_neg (by decide), if_pos rfl, ret_bind, finish_clearCmd]
    apply answers_ret (o := (_, _))
    · refine ⟨rfl, rfl, fun e he => ?_⟩
      exact he
    · exact herr

theorem answers_readserialno {len : Int} (hpos : 0 < (sys s .serialno).2.data.length)
    (hshort : (sys s .serialno).2.data.length < linkPacketDataSize)
    (hlen : (sys s .serialno).2.data.length ≤ len) :
    Answers sys
      (readReply onFailure fun reply =>
        if 0 < reply.err.toInt then
          if reply.err.toInt ≤ len then
            readData reply.err.toInt onFailure' fun data => ret ⟨0, none, data⟩
          else ret ⟨-1, none, []⟩
        else ret ⟨0, some reply.errNumber, []⟩) s
      ((linkCmdReadserialno d).bind finish)
      ((sys s .serialno).1, ⟨0, none, (sys s .serialno).2.data⟩) := by
  have hint : (BitVec.ofNat 32 (sys s .serialno).2.data.length : Word).toInt =
      (sys s .serialno).2.data.length := by
    unfold linkPacketDataSize at hshort
    exact toInt_ofNat (by omega)
  apply answers_call rfl
  · rw [Proc.bind_assoc]
    exact (open_slavewrite _ _).bind _
  · dsimp only
    rw [Proc.bind_assoc]
    apply answers_sendReply
    dsimp only [LinkData.setErr, LinkData.setErrNumber]
    rw [hint, if_pos (by omega), if_pos hlen, if_neg (by decide), Proc.bind_assoc]
    apply answers_data rfl (.inl rfl)
    rw [if_neg (by omega), ret_bind, finish_clearCmd]
    apply answers_ret (o := (_, _))
    · exact ⟨rfl, rfl, fun e he => by cases he⟩
    · change decide ((BitVec.ofNat 32 (sys s .serialno).2.data.length : Word).toInt < 0) = _
      rw [hint]
      exact decide_eq_false (by omega)

end

/-! ### `ioctl` -/

section

variable {phyHandle fildes request' arg : Word} {argp : List UInt8} {delay : Nat}

/-- What the host of `link_ioctl_delay` still expects when all is sent. -/
def ioctlAnswer (request' : Word) : Host HostRet :=
  if ioctlR request' then
    readData (ioctlSize request') .handle fun data =>
      readReply .handle fun reply => ret { reportDev reply with data := data }
  else readReply .handle fun reply => ret { reportDev reply with data := [] }

/-- What it stores of the data. -/
def ioctlData (request' : Word) (r : DevResult) : List UInt8 :=
  if ioctlR request' then sized (ioctlSize request') r.data else []

theorem answers_ioctlReply {c : DevCall} {data : List UInt8} (hcmd : d.cmd ≠ 0)
    (hdata : data = ioctlData request' (sys s c).2) :
    Answers sys (readReply .handle fun reply => ret { reportDev reply with data := data }) (sys s c).1
      ((noteErrno (isNegative (sys s c).2.ret) (d.setErr (sys s c).2.ret)).bind finish)
      (DeviceSystem.operation sys c isNegative DeviceSystem.orDevError (ioctlData request') s) := by
  have herr : (performed sys c isNegative d s).2.reply.err = (sys s c).2.ret := err_performed c _
  apply answers_noteErrno
  · intro d' hop
    apply open_finish
    rw [cmd_of_op hop]
    exact hcmd
  · change Answers sys _ (performed sys c isNegative d s).1 (finish (performed sys c isNegative d s).2) _
    apply answers_finish
    · rw [cmd_of_op (op_performed c isNegative)]
      exact hcmd
    · have hstate : (DeviceSystem.operation sys c isNegative DeviceSystem.orDevError
          (ioctlData request') s).1 = (performed sys c isNegative d s).1 := state_performed rfl
      rw [← hstate]
      apply answers_ret
      · apply reports_performed (d := d) rfl
        · exact congrArg DeviceSystem.orDevError herr
        · exact hdata
        · exact fun _ => rfl
      · rw [ret_operation, ← isNegative_orDevError, ← herr]
        rfl

theorem answers_ioctlRespond {c : DevCall} {buf : List UInt8} (hword : d.word 1 = request')
    (hcmd : d.cmd ≠ 0) (hbuf : ioctlR request' = true → buf = (sys s c).2.data) :
    Answers sys (ioctlAnswer request') (sys s c).1
      ((ioctlRespond buf (d.setErr (sys s c).2.ret)).bind finish)
      (DeviceSystem.operation sys c isNegative DeviceSystem.orDevError (ioctlData request') s) := by
  unfold ioctlAnswer ioctlRespond
  rw [LinkData.word_setErr, hword]
  by_cases hr : ioctlR request' = true
  · rw [if_pos hr, if_pos hr, hbuf hr, Proc.bind_assoc]
    apply answers_data
    · rw [length_sized]
    · left
      rw [length_sized]
    · rw [if_neg (by omega)]
      apply answers_ioctlReply hcmd
      unfold ioctlData
      rw [if_pos hr]
  · rw [if_neg hr, if_neg hr]
    apply answers_ioctlReply hcmd
    unfold ioctlData
    rw [if_neg hr]

theorem open_ioctlRespond (buf : List UInt8) (hcmd : d.cmd ≠ 0) : ((ioctlRespond buf d).bind finish).Open := by
  have hopen : ∀ d', d'.op = d.op → (finish d').Open := by
    intro d' hop
    apply open_finish
    rw [cmd_of_op hop]
    exact hcmd
  unfold ioctlRespond
  split_ifs
  · exact ((open_slavewrite _ _).bind _).bind _
  · exact open_noteErrno hopen

theorem ioctlRW_of_R {w : Word} (h : ioctlR w = true) : ioctlRW w = true := by
  have hand : w &&& 0x80000000 = (w &&& 0xC0000000) &&& 0x80000000 := by
    rw [BitVec.and_assoc]
    rfl
  unfold ioctlR at h
  unfold ioctlRW
  rw [bne_iff_ne] at h ⊢
  intro hzero
  rw [hand, hzero] at h
  exact h (BitVec.zero_and)

theorem ioctlRW_of_W {w : Word} (h : ioctlW w = true) : ioctlRW w = true := by
  have hand : w &&& 0x40000000 = (w &&& 0xC0000000) &&& 0x40000000 := by
    rw [BitVec.and_assoc]
    rfl
  unfold ioctlW at h
  unfold ioctlRW
  rw [bne_iff_ne] at h ⊢
  intro hzero
  rw [hand, hzero] at h
  exact h (BitVec.zero_and)

theorem open_ioctlExecute (ioBuf : Option (List UInt8)) (hcmd : d.cmd ≠ 0) :
    ((ioctlExecute phyHandle ioBuf d).bind finish).Open := by
  unfold ioctlExecute
  split_ifs
  · exact open_ioctlRespond _ hcmd
  · exact open_call _ _
  · cases ioBuf with
    | none => exact open_ioctlRespond _ hcmd
    | some buf => exact open_call _ _

/-- With the buffer, unless the request needs none. -/
theorem answers_ioctlExecute {ioBuf : Option (List UInt8)} {buf : List UInt8} (hfildes : d.word 0 = fildes)
    (hword : d.word 1 = request') (harg : d.word 2 = arg) (hcmd : d.cmd ≠ 0) (hphy : fildes ≠ phyHandle)
    (hbuf : ioctlRW request' = true → ioBuf = some buf) :
    Answers sys (ioctlAnswer request') s ((ioctlExecute phyHandle ioBuf d).bind finish)
      (DeviceSystem.operation sys
        (.ioctl fildes request' (if ioctlRW request' then .inr buf else .inl arg)) isNegative
        DeviceSystem.orDevError (ioctlData request') s) := by
  unfold ioctlExecute
  rw [hfildes, if_neg hphy, hword, harg]
  by_cases hrw : ioctlRW request' = true
  · rw [hbuf hrw, hrw, if_neg (by decide), if_pos rfl]
    apply answers_call rfl
    · exact open_ioctlRespond _ hcmd
    · exact answers_ioctlRespond hword hcmd fun _ => rfl
  · rw [Bool.not_eq_true] at hrw
    rw [hrw, if_pos rfl, if_neg Bool.false_ne_true]
    apply answers_call rfl
    · exact open_ioctlRespond _ hcmd
    · apply answers_ioctlRespond hword hcmd
      intro hr
      rw [ioctlRW_of_R hr] at hrw
      exact absurd hrw.symm Bool.false_ne_true

theorem answers_ioctl (hfildes : d.word 0 = fildes)
    (hword : d.word 1 = request') (harg : d.word 2 = arg) (hcmd : d.cmd ≠ 0) (hphy : fildes ≠ phyHandle)
    (hmalloc : ioctlRW request' = true → (sys s (.malloc (ioctlSize request'))).2.ret ≠ 0) :
    Answers sys
      (if ioctlW request' then
        request (sized (ioctlSize request') argp) .handle
          (if 0 < delay then wait delay (ioctlAnswer request') else ioctlAnswer request')
      else if 0 < delay then wait delay (ioctlAnswer request') else ioctlAnswer request') s
      ((linkCmdIoctl phyHandle d).bind finish)
      ((HostCall.ioctl fildes request' argp arg delay).locally sys s) := by
  have hdelay : ∀ {s : S} {q : Dev LinkData} {o : S × HostRet},
      Answers sys (ioctlAnswer request') s q o →
        Answers sys (if 0 < delay then wait delay (ioctlAnswer request') else ioctlAnswer request') s q o := by
    intro s q o h
    split_ifs
    · exact answers_wait h
    · exact h
  have hlen : (sized (ioctlSize request') argp).length = ioctlSize request' := length_sized _ _
  have hret : ¬((sized (ioctlSize request') argp).length : Int) = -1 := by omega
  unfold linkCmdIoctl
  rw [hword]
  apply answers_call rfl
  · dsimp only
    split_ifs
    · exact (open_receiveInto _ _ _).bind _
    · exact (open_receiveInto _ _ _).bind _
    · exact open_ioctlExecute _ hcmd
    · exact open_ioctlExecute _ hcmd
  · unfold HostCall.locally
    dsimp only
    by_cases hw : ioctlW request' = true
    · have hgot := hmalloc (ioctlRW_of_W hw)
      rw [if_pos hw, if_pos hw, if_neg hgot, if_pos hw]
      simp only [if_neg hgot]
      apply answers_receiveInto (.inl (by rw [hlen]))
      · dsimp only
        rw [if_neg hret]
        exact open_ioctlExecute _ hcmd
      · dsimp only
        rw [if_neg hret]
        apply hdelay
        exact answers_ioctlExecute hfildes hword harg hcmd hphy fun _ => rfl
    · rw [if_neg hw, if_neg hw, if_neg hw]
      apply hdelay
      apply answers_ioctlExecute hfildes hword harg hcmd hphy
      intro hrw
      rw [if_neg (hmalloc hrw)]

end

end Link

end CoActionOS
