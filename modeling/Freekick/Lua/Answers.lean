import Freekick.Lua.Pcall
import Freekick.Store.ErrorReply
import Freekick.Store.OneKey
import Freekick.Store.Wire

/-!
# The answers of calls from scripts

A call that finds the write buffer empty pushes the value of its own reply and leaves the
buffer empty exactly when that reply is a status or an error.  So a sequence of calls gets
its own answers exactly when all of its commands answer with statuses and errors.
-/

namespace Freekick

open Lib.Call Lib.Steps

/-! ## What a call should push -/

/-- The value of an element of a reply. -/
def bulkLua : Option Bytes → LuaScalar
  | none => .boolean false
  | some bytes => .string bytes

/-- The value that a reply is decoded to. -/
def Reply.lua : Reply → LuaValue
  | .status stat => .table [(.name (ascii "ok"), .string stat)]
  | .error message => .table [(.name (ascii "err"), .string message)]
  | .int num => .scalar (.number (toInt32 num))
  | .nil => .scalar (bulkLua none)
  | .bulk bytes => .scalar (bulkLua (some bytes))
  | .multi items => .table (items.mapIdx fun index item => (.index (index + 1), bulkLua item))

/-- A call of a script: the server and the database that it finds, and its arguments. -/
structure LuaCall where
  svr : FkSvr
  dbIdx : Nat
  args : List Bytes

namespace LuaCall

/-- The connection of the scripts works on the database of the call. -/
def work (call : LuaCall) (conn : FkConnOut) : Work := ⟨call.svr, { conn with dbIdx := call.dbIdx }⟩

def clock (call : LuaCall) : Nat → Int :=
  fun reading => call.svr.clock (call.svr.readings + reading)

/-- What the command of the call answers. -/
def answer (call : LuaCall) : Option Answer :=
  (cmdOf call.args).run call.svr.dbcnt call.clock (call.svr.spaces call.dbIdx)

/-- A call with a name, other than `EVAL`, on a database that commands can make. -/
structure Good (call : LuaCall) : Prop where
  nonempty : call.args ≠ []
  notEval : fkStr2upper (call.args.headD []) ≠ ascii "EVAL"
  wf : SvrWf call.svr
  timed : call.svr.Timed

end LuaCall

/-- The connection of the scripts after a call. -/
def luaStep (fkCmdEval : Handler) (conn : FkConnOut) (call : LuaCall) : Option FkConnOut :=
  (fkLuaPcall fkCmdEval call.args (call.work conn)).map fun result => result.2.out

/-- There is space for the reply of the call. -/
def ReplyFits (conn : FkConnOut) (call : LuaCall) : Prop :=
  ∀ answer, call.answer = some answer →
    ∃ wbuf, queueAll call.svr.junk answer.reply.calls conn.wbuf = .ok () wbuf

/-- The call returns with the value of the reply of its own command and an empty buffer. -/
def OwnAnswer (fkCmdEval : Handler) (conn : FkConnOut) (call : LuaCall) : Prop :=
  ∃ answer value after, call.answer = some answer ∧
    fkLuaPcall fkCmdEval call.args (call.work conn) = some (value, after) ∧
    value = answer.reply.lua ∧ after.out.wbuf.payload = []

/-! ## Commands that answer with a status or an error -/

def Value.isHash : Value → Bool
  | .hash _ => true
  | _ => false

def Value.isList : Value → Bool
  | .list _ => true
  | _ => false

/-- The command has no other answer than a status, or it meets a value of another type. -/
def Cmd.Stated (clock : Nat → Int) (space : Keyspace) : Cmd → Prop
  | .get key => (space.look clock key).found.any (fun value => value.bytes?.isNone) = true
  | .hset key _ _ | .hget key _ => (space.values key).any (fun value => !value.isHash) = true
  | .push _ key _ | .pop _ key | .llen key =>
      (space.values key).any (fun value => !value.isList) = true
  | .zadd key count => (space.values key).isSome = true ∧ count % 2 ≠ 0
  | .setnx _ _ | .mget _ | .del _ | .existing _ => False
  | _ => True

/-- The command of the call answers with a status or an error. -/
def LuaCall.Stated (call : LuaCall) : Prop :=
  (cmdOf call.args).Stated call.clock (call.svr.spaces call.dbIdx)

/-- A status or an error. -/
def Reply.Line : Reply → Prop
  | .status _ => True
  | .error _ => True
  | _ => False

/-- A command on one key. -/
theorem Cmd.Acts.line {dbcnt : Nat} {clock : Nat → Int} {space : Keyspace} {cmd : Cmd}
    {answer : Answer} {key : Bytes} {act : Option Value → Reply × Option Value}
    (acts : cmd.Acts key act) (ran : cmd.run dbcnt clock space = some answer) :
    answer.reply.Line ↔ (act (space.values key)).1.Line := by
  rw [acts.run] at ran
  cases ran
  exact Iff.rfl

theorem run_line_iff {dbcnt : Nat} {clock : Nat → Int} {space : Keyspace} {cmd : Cmd}
    {answer : Answer} (ran : cmd.run dbcnt clock space = some answer) : answer.reply.Line ↔
    cmd.Stated clock space := by
  cases cmd with
  | set | setex | mset | flushdb | flushall | save | refused =>
      cases ran
      exact iff_of_true trivial trivial
  | mget | del | existing =>
      cases ran
      exact iff_of_false id id
  | setnx key value =>
      rw [Cmd.run] at ran
      split at ran <;> cases ran <;> exact iff_of_false id id
  | select text =>
      cases ran
      dsimp only
      split <;> exact iff_of_true trivial trivial
  | get key =>
      cases ran
      dsimp only [Cmd.Stated]
      cases (space.look clock key).found with
      | none => exact iff_of_false id Bool.false_ne_true
      | some value =>
          cases value <;> first | exact iff_of_true trivial rfl |
            exact iff_of_false id Bool.false_ne_true
  | hget hkey key =>
      refine ((Cmd.acts_hget hkey key).line ran).trans ?_
      dsimp only [Cmd.Stated]
      cases space.values hkey with
      | none => exact iff_of_false id Bool.false_ne_true
      | some value =>
          cases value with
          | hash fields =>
              refine iff_of_false ?_ Bool.false_ne_true
              change ¬ Reply.Line (match fields key with
                | none => .nil
                | some bytes => .bulk bytes)
              cases fields key <;> exact id
          | _ => exact iff_of_true trivial rfl
  | llen key =>
      refine ((Cmd.acts_llen key).line ran).trans ?_
      dsimp only [Cmd.Stated]
      cases space.values key with
      | none => exact iff_of_false id Bool.false_ne_true
      | some value =>
          cases value <;> first | exact iff_of_true trivial rfl |
            exact iff_of_false id Bool.false_ne_true
  | hset hkey key value =>
      refine ((Cmd.acts_hset hkey key value).line ran).trans ?_
      dsimp only [Cmd.Stated]
      cases space.values hkey with
      | none => exact iff_of_false id Bool.false_ne_true
      | some found =>
          cases found <;> first | exact iff_of_true trivial rfl |
            exact iff_of_false id Bool.false_ne_true
  | push pos key nodes =>
      refine ((Cmd.acts_push pos key nodes).line ran).trans ?_
      dsimp only [Cmd.Stated]
      cases space.values key with
      | none => exact iff_of_false id Bool.false_ne_true
      | some found =>
          cases found <;> first | exact iff_of_true trivial rfl |
            exact iff_of_false id Bool.false_ne_true
  | pop pos key =>
      refine ((Cmd.acts_pop pos key).line ran).trans ?_
      dsimp only [Cmd.Stated]
      cases space.values key with
      | none => exact iff_of_false id Bool.false_ne_true
      | some found =>
          cases found with
          | list nodes =>
              refine iff_of_false ?_ Bool.false_ne_true
              rw [Cmd.popAct]
              cases pos.node? nodes <;> exact id
          | _ => exact iff_of_true trivial rfl
  | zadd key count =>
      rw [Cmd.run] at ran
      dsimp only [Cmd.Stated]
      cases held : space.values key with
      | none =>
          rw [held] at ran
          cases ran
      | some found =>
          rw [held] at ran
          cases ran
          by_cases odd : count % 2 ≠ 0
          · rw [if_pos odd]
            exact iff_of_true trivial ⟨rfl, odd⟩
          · rw [if_neg odd]
            exact iff_of_false id fun both => odd both.2

/-- A crash is no answer. -/
theorem not_stated_of_crash {dbcnt : Nat} {clock : Nat → Int} {space : Keyspace} {cmd : Cmd}
    (crashes : cmd.run dbcnt clock space = none) : ¬ cmd.Stated clock space := by
  cases cmd with
  | zadd key count =>
      rw [Cmd.run] at crashes
      rintro ⟨held, _⟩
      obtain ⟨value, known⟩ := Option.isSome_iff_exists.mp held
      rw [known] at crashes
      cases crashes
  | setnx | hset | push | pop => exact absurd crashes (Cmd.run_ne_none rfl _ _ _)
  | _ => cases crashes

/-! ## The command of a call -/

section Calls

variable {fkCmdEval : Handler} {args : List Bytes} {work : Work} {spaces : Nat → Keyspace}

/-- The two checks of the number of arguments agree, since every command has a name. -/
theorem accepts_eq {pto : FkProto} (member : pto ∈ protos fkCmdEval) (count : Nat) :
    pto.accepts count =
      !decide ((pto.argCnt < 0 ∧ (count : Int) < -pto.argCnt) ∨
        (0 < pto.argCnt ∧ pto.argCnt ≠ count)) := by
  have positive : pto.argCnt ≠ 0 := by
    cases pto, member using protos_cases <;> exact nofun
  unfold FkProto.accepts
  rw [Bool.eq_iff_iff]
  simp only [Bool.and_eq_true, Bool.not_eq_true', Bool.and_eq_false_iff, decide_eq_false_iff_not]
  omega

/-- What a call has done to the work, as far as the reply of its command fits. -/
def CallEnds (called : Option Work) (work : Work) : Option Answer → Prop
  | none => called = none
  | some answer => ∀ wbuf, queueAll work.svr.junk answer.reply.calls work.out.wbuf = .ok () wbuf →
      ∃ after : Work, called = some (after.withWbuf wbuf)

theorem callEnds_refusal {message : Bytes} (known : cmdOf args = .refused message) :
    CallEnds (settled (fkConnAddErrorRsp message work)) work (work.answer spaces (cmdOf args)) := by
  rw [known]
  intro wbuf queued
  change queueAll work.svr.junk [Rsp.error message] work.out.wbuf = _ at queued
  have sent := sendAll_apply [.error message] work
  rw [sendAll_single, queued] at sent
  change fkConnAddErrorRsp message work = _ at sent
  rw [sent]
  exact ⟨work, rfl⟩

theorem fkLuaConnProcCmd_ends (nonempty : args ≠ [])
    (notEval : fkStr2upper (args.headD []) ≠ ascii "EVAL")
    (wf : SvrWf work.svr) (holds : Holds work.svr spaces) :
    CallEnds (fkLuaConnProcCmd fkCmdEval args work) work (work.answer spaces (cmdOf args)) := by
  cases args with
  | nil => exact (nonempty rfl).elim
  | cons first rest =>
      change fkStr2upper first ≠ _ at notEval
      unfold fkLuaConnProcCmd
      dsimp only
      cases found : fkProtoSearch fkCmdEval (fkStr2upper first) with
      | none =>
          exact callEnds_refusal (read_unknown (fkProtoSearch_eq_none fkCmdEval found))
      | some pto =>
          obtain ⟨member, known⟩ := (fkProtoSearch_eq_some fkCmdEval).mp found
          have agrees := accepts_eq member (first :: rest).length
          rw [← known] at notEval ⊢
          dsimp only
          split
          · next wrong =>
              rw [decide_eq_true wrong] at agrees
              refine callEnds_refusal ?_
              change Cmd.read (fkStr2upper first) rest = _
              rw [← known]
              exact read_miscounted member notEval agrees
          · next right =>
              rw [decide_eq_false right] at agrees
              have refines := @handler_refines fkCmdEval pto rest work spaces member notEval
                agrees wf holds
              have command : cmdOf (first :: rest) = Cmd.read pto.name rest := by
                change Cmd.read (fkStr2upper first) rest = _
                rw [known]
              rw [command]
              unfold Refines at refines
              cases ran : work.answer spaces (Cmd.read pto.name rest) with
              | none =>
                  rw [ran] at refines
                  dsimp only at refines
                  rw [refines]
                  rfl
              | some answer =>
                  rw [ran] at refines
                  intro wbuf queued
                  dsimp only at refines
                  rw [queued] at refines
                  obtain ⟨after, called, _⟩ := refines
                  rw [called]
                  exact ⟨after, rfl⟩

end Calls

/-! ## Decoding a reply -/

section Decode

variable {buf : FkBuf} {byte : UInt8} {rest : Bytes}

theorem memory_take (buf : FkBuf) : buf.memory.take buf.fkBufPayloadLen = buf.payload := by
  have highLe := buf.high_le
  unfold FkBuf.memory FkBuf.payload
  rw [← List.map_take, List.take_range, Nat.min_eq_left]
  unfold FkBuf.fkBufPayloadLen
  omega

/-- The block begins with the payload. -/
theorem memory_eq (buf : FkBuf) : ∃ spare, buf.memory = buf.payload ++ spare :=
  ⟨buf.memory.drop buf.fkBufPayloadLen, by rw [← memory_take, List.take_append_drop]⟩

theorem memory_head (starts : buf.payload = byte :: rest) : buf.memory.head? = some byte := by
  obtain ⟨spare, known⟩ := memory_eq buf
  rw [known, starts]
  rfl

theorem payload_consumed (buf : FkBuf) : (buf.fkBufLowInc buf.fkBufPayloadLen).payload = [] := by
  rw [FkBuf.payload_fkBufLowInc, List.drop_eq_nil_iff, FkBuf.length_payload]

/-- A line is decoded and consumed. -/
theorem parseLine_line {key text : Bytes} (starts : buf.payload = byte :: (text ++ crlf)) :
    ∃ consumed, parseLine key buf = some (.table [(.name key, .string text)], consumed) ∧
      consumed.payload = [] := by
  have len : buf.fkBufPayloadLen = text.length + 3 := by
    rw [← FkBuf.length_payload, starts, List.length_cons, List.length_append]
    rfl
  obtain ⟨spare, known⟩ := memory_eq buf
  refine ⟨_, ?_, payload_consumed buf⟩
  unfold parseLine
  rw [if_neg (by omega), known, starts]
  have text_eq : ((byte :: (text ++ crlf) ++ spare).drop 1).take
      (buf.fkBufPayloadLen - 3) = text := by
    rw [len, Nat.add_sub_cancel, List.cons_append, List.drop_succ_cons, List.drop_zero,
      List.append_assoc, List.take_left]
  rw [text_eq]

/-- The decoders of numbers, bulks and tables leave the buffer as it is. -/
theorem fkLuaParse_unconsumed {value : LuaValue} {left : FkBuf}
    (starts : buf.payload = byte :: rest) (notStatus : byte ≠ 43) (notError : byte ≠ 45)
    (parsed : fkLuaParse buf = some (value, left)) : left = buf := by
  unfold fkLuaParse at parsed
  rw [memory_head starts] at parsed
  dsimp only at parsed
  rw [if_neg notStatus, if_neg notError] at parsed
  split at parsed
  · cases parsed
    rfl
  · split at parsed
    · obtain ⟨_, _, parsed⟩ := Option.bind_eq_some_iff.mp parsed
      obtain ⟨_, _, parsed⟩ := Option.bind_eq_some_iff.mp parsed
      cases parsed
      rfl
    · split at parsed
      · obtain ⟨_, _, parsed⟩ := Option.bind_eq_some_iff.mp parsed
        obtain ⟨_, _, parsed⟩ := Option.bind_eq_some_iff.mp parsed
        cases parsed
        rfl
      · cases parsed

end Decode

/-! ## The bytes of a reply -/

section Bytes

variable {junk : Nat → UInt8} {wbuf after : FkBuf} {reply : Reply}

/-- The texts of the source have no zero byte. -/
theorem Reply.Plain.printed_line {text : Bytes} (byte : UInt8)
    (plain : (Reply.error text).Plain ∨ text = fkRspOk) :
    printed junk (byte :: (cString text ++ crlf)) (text.length + 3) = byte :: (text ++ crlf) := by
  have same : cString text = text := by
    rcases plain with error | rfl
    · have each : ∀ text ∈ [fkRspErr, fkRspTypeErr, fkRspArgcErr, ascii "Invalid Protocol",
          ascii "Wrong Argument Number"], cString text = text := by decide
      exact each text error
    · decide
  rw [same]
  refine printed_whole junk ?_
  rw [List.length_cons, List.length_append]
  rfl

/-- The payload of a status or an error is decoded to its value. -/
theorem fkLuaParse_line (empty : wbuf.payload = []) (plain : reply.Plain) (line : reply.Line)
    (queued : queueAll junk reply.calls wbuf = .ok () after) :
    ∃ consumed, fkLuaParse after = some (reply.lua, consumed) ∧ consumed.payload = [] := by
  obtain ⟨space, known⟩ := queued_of_ok queued
  have payload := known.payload
  rw [empty, List.nil_append] at payload
  cases reply with
  | status stat =>
      have starts : after.payload = 43 :: (stat ++ crlf) := by
        rw [payload]
        change printed junk _ _ ++ [] = _
        rw [List.append_nil]
        exact Reply.Plain.printed_line 43 (.inr plain)
      obtain ⟨consumed, parsed, none⟩ := @parseLine_line after 43 (ascii "ok") stat starts
      refine ⟨consumed, ?_, none⟩
      unfold fkLuaParse
      rw [memory_head starts]
      exact parsed
  | error message =>
      have starts : after.payload = 45 :: (message ++ crlf) := by
        rw [payload]
        change printed junk _ _ ++ [] = _
        rw [List.append_nil]
        exact Reply.Plain.printed_line 45 (.inl plain)
      obtain ⟨consumed, parsed, none⟩ := @parseLine_line after 45 (ascii "err") message starts
      refine ⟨consumed, ?_, none⟩
      unfold fkLuaParse
      rw [memory_head starts]
      exact parsed
  | _ => exact line.elim

/-- The payload of another reply stays in the buffer. -/
theorem fkLuaParse_stays {value : LuaValue} {left : FkBuf} (empty : wbuf.payload = [])
    (other : ¬ reply.Line) (queued : queueAll junk reply.calls wbuf = .ok () after)
    (parsed : fkLuaParse after = some (value, left)) :
    left.payload ≠ [] := by
  obtain ⟨space, known⟩ := queued_of_ok queued
  have payload := known.payload
  rw [empty, List.nil_append] at payload
  have begins : ∀ rsp rest byte text, reply.calls = rsp :: rest → rsp.text = byte :: text →
      0 < rsp.len → ∃ behind, after.payload = byte :: behind := by
    intro rsp rest byte text calls same positive
    obtain ⟨behind, first⟩ := @printed_cons junk byte text rsp.len positive
    rw [payload, calls, List.flatMap_cons, same, first]
    exact ⟨_, rfl⟩
  have stays : ∀ rsp rest byte text, reply.calls = rsp :: rest → rsp.text = byte :: text →
      0 < rsp.len → byte ≠ 43 → byte ≠ 45 → left.payload ≠ [] := by
    intro rsp rest byte text calls same positive notStatus notError
    obtain ⟨behind, starts⟩ := begins rsp rest byte text calls same positive
    rw [fkLuaParse_unconsumed starts notStatus notError parsed, starts]
    exact List.cons_ne_nil _ _
  cases reply with
  | status | error => exact (other trivial).elim
  | int num => exact stays (.int num) [] 58 _ rfl rfl (Nat.succ_pos _) (by decide) (by decide)
  | nil =>
      exact stays (.bulk fkRspNil) [] dollarByte _ rfl rfl (Nat.succ_pos _) (by decide) (by decide)
  | bulk bytes =>
      exact stays (.bulk bytes.length) _ dollarByte _ rfl rfl (Nat.succ_pos _)
        (by decide) (by decide)
  | multi items =>
      exact stays (.mbulk items.length) _ starByte _ rfl rfl (Nat.succ_pos _)
        (by decide) (by decide)

end Bytes

/-! ## Sequences of calls -/

section Sequences

variable {fkCmdEval : Handler} {conn : FkConnOut} {call : LuaCall} {calls : List LuaCall}

/-- A call that finds the buffer empty. -/
theorem ownAnswer_iff (good : call.Good) (empty : conn.wbuf.payload = [])
    (fits : ReplyFits conn call) :
    OwnAnswer fkCmdEval conn call ↔ call.Stated := by
  have ends := @fkLuaConnProcCmd_ends fkCmdEval call.args (call.work conn) call.svr.spaces
    good.nonempty good.notEval good.wf good.timed.holds
  change CallEnds _ _ call.answer at ends
  cases ran : call.answer with
  | none =>
      refine iff_of_false ?_ (not_stated_of_crash ran)
      rintro ⟨answer, _, _, answers, _⟩
      rw [ran] at answers
      cases answers
  | some answer =>
      obtain ⟨wbuf, queued⟩ := fits answer ran
      rw [ran] at ends
      obtain ⟨after, called⟩ := ends wbuf queued
      have pushed : fkLuaPcall fkCmdEval call.args (call.work conn) =
          (fkLuaParse wbuf).map fun result =>
            (result.1, (after.withWbuf wbuf).withWbuf result.2) := by
        unfold fkLuaPcall
        rw [called]
        change (fkLuaParse wbuf).bind _ = _
        cases fkLuaParse wbuf <;> rfl
      rw [LuaCall.Stated, ← run_line_iff ran]
      constructor
      · rintro ⟨_, value, final, _, returned, _, none⟩
        by_contra other
        rw [pushed] at returned
        obtain ⟨⟨pushedValue, left⟩, parsed, same⟩ := Option.map_eq_some_iff.mp returned
        cases same
        exact fkLuaParse_stays empty other queued parsed none
      · intro line
        have plain := run_plain (fun message refused => cmdOf_message refused) ran
        obtain ⟨consumed, parsed, none⟩ := fkLuaParse_line empty plain line queued
        rw [parsed] at pushed
        exact ⟨answer, _, _, ran, pushed, rfl, none⟩

/-- All calls of a sequence get their own answers exactly when all of them are answered with
a status or an error. -/
theorem fkLuaPcall_own_iff (fkCmdEval : Handler) (conn : FkConnOut) (empty : conn.wbuf.payload = [])
    (calls : List LuaCall) (good : ∀ call ∈ calls, call.Good)
    (fits : Throughout (luaStep fkCmdEval) ReplyFits conn calls) :
    Throughout (luaStep fkCmdEval) (OwnAnswer fkCmdEval) conn calls ↔
      ∀ call ∈ calls, call.Stated := by
  induction calls generalizing conn with
  | nil => exact iff_of_true trivial nofun
  | cons call rest ih =>
      obtain ⟨here, there⟩ := List.forall_mem_cons.mp good
      have first := @ownAnswer_iff fkCmdEval conn call here empty fits.1
      rw [List.forall_mem_cons, ← first]
      refine and_congr_right fun own => ?_
      obtain ⟨answer, value, after, _, returned, _, none⟩ := own
      have stepped : luaStep fkCmdEval conn call = some after.out := by
        unfold luaStep
        rw [returned]
        rfl
      have later := ih after.out none there (fits.2 after.out stepped)
      constructor
      · intro along
        exact later.mp (along after.out stepped)
      · intro stated next same
        rw [stepped] at same
        cases same
        exact later.mpr stated

/-- A new connection of the scripts. -/
def luaConn : FkConnOut := ⟨.fake, fkBufCreate fkBufInitLen fkBufHighwat, 0⟩

/-- A call on empty databases. -/
def emptyCall (args : List Bytes) : LuaCall := ⟨fkSvrInit 16 false (fun _ => 0) fun _ => 0, 0, args⟩

theorem emptyCall_good {args : List Bytes} (nonempty : args ≠ [])
    (notEval : fkStr2upper (args.headD []) ≠ ascii "EVAL") :
    (emptyCall args).Good where
  nonempty := nonempty
  notEval := notEval
  wf := by
    have ok : SvrOk ArgName (emptyCall args).svr := fun isexp _ => by
      cases isexp <;> exact fkDictCreate_ok
    exact ok.svrWf
  timed := fkSvrInit_timed _ _ _ _

def setArgs : List Bytes := [ascii "set", ascii "k", ascii "v"]

def existsArgs : List Bytes := [ascii "exists", ascii "k"]

theorem emptyCall_fits (room : 5 ≤ conn.wbuf.fkBufFreeLen) :
    ReplyFits conn (emptyCall setArgs) := by
  intro answer ran
  cases ran
  have grown : conn.wbuf.fkBufAlloc (Rsp.status fkRspOk).len = some conn.wbuf :=
    fkBufAlloc_room room
  have queued : Rsp.queue (fun _ => 0) (.status fkRspOk) conn.wbuf =
      .ok () (conn.wbuf.append (printed (fun _ => 0) (Rsp.status fkRspOk).text
        (Rsp.status fkRspOk).len)) := by
    unfold Rsp.queue
    rw [grown]
    exact if_neg (Nat.not_lt.mpr room)
  exact ⟨_, Act.bind_ok queued⟩

/-- Two calls of `SET` get their own answers. -/
theorem fkLuaPcall_own_set :
    Throughout (luaStep fun _ => Act.fault) (OwnAnswer fun _ => Act.fault) luaConn
      [emptyCall setArgs, emptyCall setArgs] ↔ ∀ call ∈ [emptyCall setArgs, emptyCall setArgs],
      call.Stated := by
  have set : (emptyCall setArgs).Good := emptyCall_good (by decide) (by decide)
  have good : ∀ call ∈ [emptyCall setArgs, emptyCall setArgs], call.Good :=
    List.forall_mem_cons.mpr ⟨set, List.forall_mem_singleton.mpr set⟩
  have room : (luaStep (fun _ => Act.fault) luaConn (emptyCall setArgs)).map
      (fun conn => conn.wbuf.fkBufFreeLen) = some 11 := by
    decide +kernel
  refine fkLuaPcall_own_iff _ luaConn rfl _ good
    ⟨emptyCall_fits (by decide), fun next stepped => ⟨emptyCall_fits ?_, fun _ _ => trivial⟩⟩
  rw [stepped, Option.map_some, Option.some_inj] at room
  omega

/-- The number of the first call is left in the buffer, and the second call gets it again. -/
theorem fkLuaPcall_stale :
    ¬ Throughout (luaStep fun _ => Act.fault) (OwnAnswer fun _ => Act.fault) luaConn
        [emptyCall existsArgs, emptyCall setArgs] ∧
      ((luaStep (fun _ => Act.fault) luaConn (emptyCall existsArgs)).bind fun conn =>
        (fkLuaPcall (fun _ => Act.fault) setArgs ((emptyCall setArgs).work conn)).map Prod.fst) =
          some (.scalar (.number 0)) := by
  refine ⟨?_, by decide +kernel⟩
  rintro ⟨⟨_, _, after, _, returned, _, none⟩, _⟩
  have left : (fkLuaPcall (fun _ => Act.fault) (emptyCall existsArgs).args
      ((emptyCall existsArgs).work luaConn)).map (fun result => result.2.out.wbuf.payload) = some
      (ascii ":0\r\n") := by decide +kernel
  rw [returned, Option.map_some, none] at left
  cases left

end Sequences

end Freekick
