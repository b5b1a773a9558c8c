import Freekick.Blog.Rounds
import Freekick.Store.Replay
import Freekick.Store.Space

/-!
# The replies of a log that is loaded

A loaded command queues its replies as every command does, but nobody takes them: the
write buffer of the connection only fills.  From the first reply that does not fit on,
the loader gives up.  How long the replies of a write command are can be told from the
state it finds, so that the commands which a load reaches can be told from the log.
-/

namespace Freekick

open Lib.Call

/-! ## A write buffer that nobody drains -/

def FkBuf.space (buf : FkBuf) : Space := ⟨buf.len, buf.high⟩

/-- Nothing was taken from the buffer yet. -/
structure Undrained (maxWbuf : Nat) (buf : FkBuf) : Prop where
  low : buf.low = 0
  highwat : buf.highwat = maxWbuf

/-- What `fk_buf_alloc` does before a reply is copied. -/
theorem Undrained.fkBufAlloc {maxWbuf len : Nat} {buf : FkBuf} (undrained : Undrained maxWbuf buf) :
    match buf.space.reserve maxWbuf len with
    | some next => ∃ grown, buf.fkBufAlloc len = some grown ∧ len ≤ grown.fkBufFreeLen ∧
        Undrained maxWbuf grown ∧ grown.len = next.len ∧ grown.high + len = next.used
    | none => ∀ grown, buf.fkBufAlloc len = some grown → grown.fkBufFreeLen < len := by
  have highLe := buf.high_le
  have still : buf.fkBufShift = buf := by
    unfold FkBuf.fkBufShift
    exact if_neg (by rw [undrained.low]; exact Nat.lt_irrefl 0)
  have free : buf.fkBufFreeLen = buf.len - buf.high := rfl
  have moved : (if buf.fkBufFreeLen < len then buf.fkBufShift else buf) = buf := by
    rw [still, ite_self]
  unfold Space.reserve FkBuf.space FkBuf.fkBufAlloc
  dsimp only
  rw [moved, undrained.highwat]
  by_cases fits : buf.high + len ≤ buf.len
  · rw [if_pos fits, if_neg (by omega)]
    exact ⟨buf, rfl, by omega, undrained, rfl, rfl⟩
  · rw [if_neg fits]
    have less : buf.fkBufFreeLen < len := by omega
    by_cases small : buf.len < maxWbuf
    · rw [if_pos small, if_pos ⟨less, small⟩]
      have total : buf.len + len - buf.fkBufFreeLen = buf.high + len := by omega
      rw [total]
      cases power : fkUtilMinPower (buf.high + len) with
      | none =>
          intro grown allocated
          cases allocated
      | some grown =>
          have larger := fkUtilMinPower_gt power
          have room : buf.high ≤ grown := by omega
          rw [Option.map_some, Option.bind_some, dif_pos room]
          refine ⟨_, rfl, ?_, ⟨undrained.low, undrained.highwat⟩, rfl, rfl⟩
          change len ≤ grown - buf.high
          omega
    · rw [if_neg small, if_neg (fun both => small both.2)]
      intro grown allocated
      cases allocated
      exact less

/-- A call that found this write buffer queued replies of these lengths, and it succeeded
exactly when all of them fit.  No list stands for a crash. -/
def Answers (maxWbuf : Nat) (wbuf : FkBuf) (lens : Option (List Nat))
    (outcome : Outcome Work Unit) : Prop :=
  match lens.bind (wbuf.space.reserveAll maxWbuf) with
  | some space => ∃ after, outcome = .ok () after ∧ Undrained maxWbuf after.out.wbuf ∧
      after.out.wbuf.space = space
  | none => ∀ after, outcome ≠ .ok () after

section Answers

variable {maxWbuf : Nat}

theorem addRsp_answers (svr : FkSvr) {out : FkConnOut} (undrained : Undrained maxWbuf out.wbuf)
    (text : Bytes) (len : Nat) :
    Answers maxWbuf out.wbuf (some [len]) (addRsp text len ⟨svr, out⟩) := by
  have alloc := @Undrained.fkBufAlloc maxWbuf len _ undrained
  unfold Answers
  rw [Option.bind_some, Space.reserveAll]
  cases reserved : out.wbuf.space.reserve maxWbuf len with
  | none =>
      rw [reserved] at alloc
      rw [Option.bind_none]
      intro after called
      unfold addRsp at called
      split at called
      · cases called
      · next wbuf allocated =>
          rw [if_pos (alloc wbuf allocated)] at called
          cases called
  | some next =>
      rw [reserved] at alloc
      obtain ⟨grown, allocated, room, kept, lenEq, used⟩ := alloc
      have fits : (printed svr.junk text len).length ≤ grown.fkBufFreeLen := by
        rw [length_printed]
        exact room
      have high := FkBuf.append_high fits
      rw [length_printed, used] at high
      rw [Option.bind_some, Space.reserveAll]
      refine ⟨⟨svr, { out with wbuf := grown.append (printed svr.junk text len) }⟩, ?_,
        ⟨kept.low, kept.highwat⟩, ?_⟩
      · unfold addRsp
        rw [allocated]
        exact if_neg (Nat.not_lt.mpr room)
      · change Space.mk grown.len (grown.append _).high = next
        rw [lenEq, high]

/-- One reply after the other. -/
theorem Answers.bind {wbuf : FkBuf} {first : Act Work Unit} {second : Unit → Act Work Unit}
    {work : Work} {lens more : List Nat} (head : Answers maxWbuf wbuf (some lens) (first work))
    (later : ∀ after, first work = .ok () after → Undrained maxWbuf after.out.wbuf →
      Answers maxWbuf after.out.wbuf (some more) (second () after)) :
    Answers maxWbuf wbuf (some (lens ++ more)) ((first >>= second) work) := by
  unfold Answers at head ⊢
  rw [Option.bind_some] at head ⊢
  rw [Space.reserveAll_append]
  cases reserved : wbuf.space.reserveAll maxWbuf lens with
  | none =>
      rw [reserved] at head
      intro after called
      obtain ⟨value, middle, ran, _⟩ := Act.bind_eq_ok called
      exact head middle ran
  | some space =>
      rw [reserved] at head
      obtain ⟨middle, ran, undrained, known⟩ := head
      have tail := later middle ran undrained
      unfold Answers at tail
      rw [Option.bind_some, known] at tail
      rw [Option.bind_some, Act.bind_ok ran]
      exact tail

/-- A change that comes after the replies and leaves the buffer alone. -/
theorem Answers.modify {wbuf : FkBuf} {act : Act Work Unit} {change : Work → Work} {work : Work}
    {lens : Option (List Nat)} (head : Answers maxWbuf wbuf lens (act work))
    (same : ∀ work, (change work).out.wbuf = work.out.wbuf) :
    Answers maxWbuf wbuf lens ((act >>= fun _ => Act.modify change) work) := by
  unfold Answers at head ⊢
  cases reserved : lens.bind (wbuf.space.reserveAll maxWbuf) with
  | none =>
      rw [reserved] at head
      intro after called
      obtain ⟨value, middle, ran, _⟩ := Act.bind_eq_ok called
      exact head middle ran
  | some space =>
      rw [reserved] at head
      obtain ⟨middle, ran, undrained, known⟩ := head
      refine ⟨change middle, Act.bind_ok ran, ?_, ?_⟩
      · rw [same]
        exact undrained
      · rw [same]
        exact known

end Answers

/-! ## The replies of the write commands -/

/-- The lengths of the replies that a write command queues, told from the server and the
selected database before it.  `ZADD` crashes on a key that is not there. -/
def replyLens (svr : FkSvr) (idx : Nat) (name : Bytes) (rest : List Bytes) : Option (List Nat) :=
  let held := fkDictGet dbDictEop (svr.db idx) (rest.headD [])
  if name ∈ [ascii "SET", ascii "SETEX", ascii "FLUSHDB", ascii "FLUSHALL"] then some [5]
  else if name = ascii "MSET" then some [if rest.length % 2 = 0 then 5 else 24]
  else if name = ascii "SETNX" then some [4]
  else if name = ascii "DEL" then some [intRspLen (deletable (svr.db idx) rest)]
  else if name = ascii "HSET" then
    match held with
    | none | some (.dict _) => some [4]
    | _ => some [13]
  else if name ∈ [ascii "LPUSH", ascii "RPUSH"] then
    match held with
    | none | some (.list _) => some [intRspLen (rest.length - 1 : Nat)]
    | _ => some [13]
  else if name ∈ [ascii "LPOP", ascii "RPOP"] then
    match held with
    | none => some [5]
    | some (.list nodes) =>
        match (if name = ascii "LPOP" then ListPos.head else .tail).node? nodes with
        | none => some [5]
        | some node => some [intRspLen node.length, node.length + 2]
    | _ => some [13]
  else if name = ascii "SELECT" then
    some [if atoi (rest.headD []) < 0 ∨ (svr.dbcnt : Int) ≤ atoi (rest.headD []) then 8 else 5]
  else
    match held with
    | none => none
    | some _ =>
        some [if (rest.length - 1) % 2 = 0 then intRspLen ((rest.length - 1) / 2 : Nat) else 24]

section Handlers

variable {maxWbuf : Nat} {svr : FkSvr} {out : FkConnOut} {name key : Bytes} {rest : List Bytes}

/-- An integer reply after a change of the database. -/
theorem intRsp_answers (undrained : Undrained maxWbuf out.wbuf) (change : FkDb → FkDb)
    (number : Int) :
    Answers maxWbuf out.wbuf (some [intRspLen number])
      ((changeDb change >>= fun _ => fkConnAddIntRsp number) ⟨svr, out⟩) :=
  addRsp_answers _ undrained _ _

theorem fkCmdSetnx_answers {value : Bytes} (undrained : Undrained maxWbuf out.wbuf) :
    Answers maxWbuf out.wbuf (some [4]) (fkCmdSetnx [name, key, value] ⟨svr, out⟩) := by
  unfold fkCmdSetnx
  rw [getArg_bind rfl, dbGet, Act.read_bind]
  split
  · exact addRsp_answers _ undrained _ _
  · rw [getArg_bind rfl]
    exact addRsp_answers _ undrained _ _

theorem fkCmdMset_answers (undrained : Undrained maxWbuf out.wbuf) :
    Answers maxWbuf out.wbuf (some [if rest.length % 2 = 0 then 5 else 24])
      (fkCmdMset (name :: rest) ⟨svr, out⟩) := by
  have count : (name :: rest).length - 1 = rest.length := rfl
  unfold fkCmdMset
  rw [count, List.drop_succ_cons, List.drop_zero]
  by_cases even : rest.length % 2 = 0
  · rw [if_neg (not_not.mpr even), if_pos even]
    obtain ⟨changed, looped⟩ := @forEach_modify out _ (fun pair => dbReplace pair.1 (.str pair.2))
      (pairs rest) (fun _ _ => ⟨_, rfl⟩) svr
    rw [Act.bind_ok looped]
    exact addRsp_answers changed undrained _ _
  · rw [if_pos even, if_neg even]
    exact addRsp_answers svr undrained _ _

theorem fkCmdDel_answers (undrained : Undrained maxWbuf out.wbuf) :
    Answers maxWbuf out.wbuf (some [intRspLen (deletable (svr.db out.dbIdx) rest)])
      (fkCmdDel (name :: rest) ⟨svr, out⟩) := by
  obtain ⟨changed, looped⟩ := @delLoop_ok out rest 0 svr
  have called : fkCmdDel (name :: rest) ⟨svr, out⟩ =
      fkConnAddIntRsp ((0 + deletable (svr.db out.dbIdx) rest : Nat) : Int) ⟨changed, out⟩ :=
        Act.bind_ok looped
  rw [called, Nat.zero_add]
  exact addRsp_answers changed undrained _ _

theorem fkCmdFlushall_answers (undrained : Undrained maxWbuf out.wbuf) (args : List Bytes) :
    Answers maxWbuf out.wbuf (some [5]) (fkCmdFlushall args ⟨svr, out⟩) := by
  obtain ⟨changed, looped⟩ := @forEach_modify out Nat flushOne (List.range svr.dbcnt)
    (fun _ _ => ⟨_, rfl⟩) svr
  have called : fkCmdFlushall args ⟨svr, out⟩ = fkConnAddStatusRsp fkRspOk ⟨changed, out⟩ :=
    Act.bind_ok looped
  rw [called]
  exact addRsp_answers changed undrained _ _

theorem fkCmdHset_answers {field value : Bytes} (undrained : Undrained maxWbuf out.wbuf) :
    Answers maxWbuf out.wbuf
      (match fkDictGet dbDictEop (svr.db out.dbIdx) key with
        | none | some (.dict _) => some [4]
        | _ => some [13])
      (fkCmdHset [name, key, field, value] ⟨svr, out⟩) := by
  unfold fkCmdHset
  rw [getArg_bind rfl, getArg_bind rfl, getArg_bind rfl, dbGet, Act.read_bind]
  cases fkDictGet dbDictEop (svr.db out.dbIdx) key with
  | none => exact addRsp_answers _ undrained _ _
  | some item =>
      cases item with
      | dict fields => exact addRsp_answers _ undrained _ _
      | _ => exact addRsp_answers _ undrained _ _

theorem fkCmdGenericPush_answers {pos : ListPos} {nodes : List Bytes}
    (undrained : Undrained maxWbuf out.wbuf) :
    Answers maxWbuf out.wbuf
      (match fkDictGet dbDictEop (svr.db out.dbIdx) key with
        | none | some (.list _) => some [intRspLen ((key :: nodes).length - 1 : Nat)]
        | _ => some [13])
      (fkCmdGenericPush pos (name :: key :: nodes) ⟨svr, out⟩) := by
  have added : (name :: key :: nodes).length - 2 = (key :: nodes).length - 1 := by
    rw [List.length_cons]
    omega
  unfold fkCmdGenericPush
  rw [getArg_bind rfl, dbGet, Act.read_bind, added]
  cases fkDictGet dbDictEop (svr.db out.dbIdx) key with
  | none => exact intRsp_answers undrained _ _
  | some item =>
      cases item with
      | list nodes => exact intRsp_answers undrained _ _
      | _ => exact addRsp_answers _ undrained _ _

theorem fkCmdGenericPop_answers {pos : ListPos} (undrained : Undrained maxWbuf out.wbuf) :
    Answers maxWbuf out.wbuf
      (match fkDictGet dbDictEop (svr.db out.dbIdx) key with
        | none => some [5]
        | some (.list nodes) =>
            match pos.node? nodes with
            | none => some [5]
            | some node => some [intRspLen node.length, node.length + 2]
        | _ => some [13])
      (fkCmdGenericPop pos [name, key] ⟨svr, out⟩) := by
  unfold fkCmdGenericPop
  rw [getArg_bind rfl, dbGet, Act.read_bind]
  cases fkDictGet dbDictEop (svr.db out.dbIdx) key with
  | none => exact addRsp_answers _ undrained _ _
  | some item =>
      cases item with
      | list nodes =>
          dsimp only
          cases pos.node? nodes with
          | none => exact addRsp_answers _ undrained _ _
          | some node =>
              have both : Answers maxWbuf out.wbuf
                  (some ([intRspLen node.length] ++ [node.length + 2]))
                  (addBulkAndContent node ⟨svr, out⟩) :=
                (addRsp_answers svr undrained _ _).bind fun after _ still =>
                  addRsp_answers after.svr still _ _
              exact both.modify fun _ => rfl
      | _ => exact addRsp_answers _ undrained _ _

theorem fkCmdSelect_answers {text : Bytes} (undrained : Undrained maxWbuf out.wbuf) :
    Answers maxWbuf out.wbuf (some [if atoi text < 0 ∨ (svr.dbcnt : Int) ≤ atoi text then 8 else 5])
      (fkCmdSelect [name, text] ⟨svr, out⟩) := by
  unfold fkCmdSelect
  rw [getArg_bind rfl, Act.read_bind]
  dsimp only
  split
  · exact addRsp_answers _ undrained _ _
  · have moved : Undrained maxWbuf { out with dbIdx := (atoi text).toNat }.wbuf := undrained
    exact addRsp_answers _ moved _ _

theorem fkCmdZadd_answers {members : List Bytes} (undrained : Undrained maxWbuf out.wbuf) :
    Answers maxWbuf out.wbuf
      (match fkDictGet dbDictEop (svr.db out.dbIdx) key with
        | none => none
        | some _ => some [if ((key :: members).length - 1) % 2 = 0 then
            intRspLen (((key :: members).length - 1) / 2 : Nat) else 24])
      (fkCmdZadd (name :: key :: members) ⟨svr, out⟩) := by
  have added : (name :: key :: members).length - 2 = (key :: members).length - 1 := by
    rw [List.length_cons]
    omega
  unfold fkCmdZadd
  rw [getArg_bind rfl, dbGet, Act.read_bind, added]
  cases fkDictGet dbDictEop (svr.db out.dbIdx) key with
  | none =>
      intro after called
      cases called
  | some item =>
      dsimp only
      by_cases even : ((key :: members).length - 1) % 2 = 0
      · rw [if_pos even, if_neg (not_not.mpr even)]
        exact addRsp_answers _ undrained _ _
      · rw [if_neg even, if_pos even]
        exact addRsp_answers _ undrained _ _

end Handlers

/-- A write command answers as the state before it tells. -/
theorem handler_answers {fkCmdEval : Handler} {pto : FkProto} {rest : List Bytes} {maxWbuf : Nat}
    (svr : FkSvr) {out : FkConnOut} (member : pto ∈ protos fkCmdEval) (writes : pto.type = .write)
    (counted : pto.accepts (rest.length + 1) = true) (undrained : Undrained maxWbuf out.wbuf) :
    Answers maxWbuf out.wbuf (replyLens svr out.dbIdx pto.name rest)
      (pto.handler (pto.name :: rest) ⟨svr, out⟩) := by
  cases pto, member using protos_cases with
  | set =>
      obtain ⟨key, value, rfl⟩ := List.length_eq_two.mp (accepts_rest counted (by decide))
      exact addRsp_answers _ undrained _ _
  | setnx =>
      obtain ⟨key, value, rfl⟩ := List.length_eq_two.mp (accepts_rest counted (by decide))
      exact fkCmdSetnx_answers undrained
  | setex =>
      obtain ⟨key, exp, value, rfl⟩ := List.length_eq_three.mp (accepts_rest counted (by decide))
      exact addRsp_answers _ undrained _ _
  | mset => exact fkCmdMset_answers undrained
  | del => exact fkCmdDel_answers undrained
  | flushdb => exact addRsp_answers _ undrained _ _
  | flushall => exact fkCmdFlushall_answers undrained (ascii "FLUSHALL" :: rest)
  | hset =>
      obtain ⟨hkey, key, value, rfl⟩ := List.length_eq_three.mp (accepts_rest counted (by decide))
      exact fkCmdHset_answers undrained
  | lpush =>
      cases rest with
      | nil => exact absurd (accepts_least counted (by decide)) (by decide)
      | cons key nodes => exact fkCmdGenericPush_answers undrained
  | rpush =>
      cases rest with
      | nil => exact absurd (accepts_least counted (by decide)) (by decide)
      | cons key nodes => exact fkCmdGenericPush_answers undrained
  | lpop =>
      obtain ⟨key, rfl⟩ := List.length_eq_one_iff.mp (accepts_rest counted (by decide))
      exact fkCmdGenericPop_answers undrained
  | rpop =>
      obtain ⟨key, rfl⟩ := List.length_eq_one_iff.mp (accepts_rest counted (by decide))
      exact fkCmdGenericPop_answers undrained
  | select =>
      obtain ⟨text, rfl⟩ := List.length_eq_one_iff.mp (accepts_rest counted (by decide))
      exact fkCmdSelect_answers undrained
  | zadd =>
      cases rest with
      | nil => exact absurd (accepts_least counted (by decide)) (by decide)
      | cons key members => exact fkCmdZadd_answers undrained
  | _ => cases writes

/-- A write command of the table with the right number of arguments. -/
def WriteCommand (fkCmdEval : Handler) (args : List Bytes) : Prop :=
  isWrite fkCmdEval (fkStr2upper (args.headD [])) args.length = true

theorem WriteCommand.cases {fkCmdEval : Handler} {args : List Bytes}
    (command : WriteCommand fkCmdEval args) (nonempty : args ≠ []) :
    ∃ pto ∈ protos fkCmdEval, ∃ rest, pto.name = fkStr2upper (args.headD []) ∧ rest = args.tail ∧
      pto.type = .write ∧ pto.accepts (rest.length + 1) = true ∧
      procArgs fkCmdEval args =
        (pto.handler (pto.name :: rest) >>= fun _ => blogAppend pto (pto.name :: rest)) := by
  cases args with
  | nil => exact (nonempty rfl).elim
  | cons first rest =>
      have found : isWrite fkCmdEval (fkStr2upper first) (rest.length + 1) = true := command
      unfold isWrite at found
      split at found
      · next pto search =>
          obtain ⟨member, known⟩ := (fkProtoSearch_eq_some fkCmdEval).mp search
          rw [Bool.and_eq_true, beq_iff_eq] at found
          refine ⟨pto, member, rest, known, rfl, found.2, found.1, ?_⟩
          unfold procArgs
          dsimp only
          rw [search]
          dsimp only
          rw [List.length_cons, if_pos found.1, known]
      · cases found

/-- The replies of a command fit into the write buffer that it finds. -/
def answered (maxWbuf : Nat) (work : Work) (args : List Bytes) : Bool :=
  ((replyLens work.svr work.out.dbIdx (fkStr2upper (args.headD [])) args.tail).bind
    (work.out.wbuf.space.reserveAll maxWbuf)).isSome

/-- A command succeeds exactly when its replies fit. -/
theorem procArgs_answered {fkCmdEval : Handler} {maxWbuf : Nat} {work : Work} {args : List Bytes}
    (command : WriteCommand fkCmdEval args) (nonempty : args ≠ [])
    (undrained : Undrained maxWbuf work.out.wbuf) :
    (answered maxWbuf work args = true →
      ∃ after, procArgs fkCmdEval args work = .ok () after ∧ Undrained maxWbuf after.out.wbuf) ∧
    (answered maxWbuf work args = false →
      ∀ after, procArgs fkCmdEval args work ≠ .ok () after) := by
  obtain ⟨svr, out⟩ := work
  obtain ⟨pto, member, rest, known, tail, writes, counted, ran⟩ := command.cases nonempty
  have quiet : ∀ work : Work,
      (if work.svr.blogOn = true ∧ pto.type ≠ .read ∧ work.out.type = .real then
        { work with svr := { work.svr with blog := work.svr.blog ++ [pto.name :: rest] } }
        else work).out.wbuf = work.out.wbuf := by
    intro work
    split <;> rfl
  have answers := (handler_answers svr member writes counted undrained).modify quiet
  have outcome : procArgs fkCmdEval args ⟨svr, out⟩ =
      (pto.handler (pto.name :: rest) >>= fun _ => blogAppend pto (pto.name :: rest)) ⟨svr, out⟩ :=
    congrFun ran _
  unfold answered
  rw [← known, ← tail, outcome]
  unfold Answers at answers
  cases fits : (replyLens svr out.dbIdx pto.name rest).bind (out.wbuf.space.reserveAll maxWbuf) with
  | none =>
      rw [fits] at answers
      exact ⟨fun some => (by cases some), fun _ => answers⟩
  | some space =>
      rw [fits] at answers
      obtain ⟨after, called, still, _⟩ := answers
      exact ⟨fun _ => ⟨after, called, still⟩, fun none => (by cases none)⟩

/-- All commands but the last have replies that fit, each in the state it finds. -/
def repliesFit (fkCmdEval : Handler) (maxWbuf : Nat) : Work → List (List Bytes) → Bool
  | work, command :: next :: rest =>
      answered maxWbuf work command &&
        match procArgs fkCmdEval command work with
        | .ok _ after => repliesFit fkCmdEval maxWbuf after (next :: rest)
        | _ => false
  | _, _ => true

/-- The commands are run to the last exactly when the replies of the others fit. -/
theorem execAll_repliesFit {fkCmdEval : Handler} {maxWbuf : Nat} {work : Work}
    {commands : List (List Bytes)}
    (wellFormed : ∀ args ∈ commands, args ≠ [] ∧ WriteCommand fkCmdEval args)
    (undrained : Undrained maxWbuf work.out.wbuf) :
    (execAll (fkConnProcCmd fkCmdEval) work commands).2.1 = commands ↔
      repliesFit fkCmdEval maxWbuf work commands = true := by
  induction commands generalizing work with
  | nil => exact ⟨fun _ => rfl, fun _ => rfl⟩
  | cons command rest ih =>
      obtain ⟨nonempty, write⟩ := wellFormed command (List.mem_cons_self ..)
      obtain ⟨fits, refused⟩ := procArgs_answered write nonempty undrained
      rw [execAll, fkConnProcCmd_args]
      cases rest with
      | nil =>
          refine ⟨fun _ => rfl, fun _ => ?_⟩
          cases procArgs fkCmdEval command work with
          | ok value after => rfl
          | err after => rfl
          | fault => rfl
      | cons next more =>
          rw [repliesFit]
          cases known : answered maxWbuf work command with
          | true =>
              obtain ⟨after, called, still⟩ := fits known
              have later := ih (fun args member => wellFormed args (List.mem_cons_of_mem _ member))
                still
              rw [called, Bool.true_and]
              refine Iff.trans ?_ later
              exact ⟨fun same => (List.cons.inj same).2, fun same => congrArg (command :: ·) same⟩
          | false =>
              have stops := refused known
              rw [Bool.false_and]
              refine ⟨fun same => ?_, fun impossible => (by cases impossible)⟩
              cases called : procArgs fkCmdEval command work with
              | ok value after => exact (stops after called).elim
              | err after =>
                  rw [called] at same
                  cases (List.cons.inj same).2
              | fault =>
                  rw [called] at same
                  cases (List.cons.inj same).2

/-- A log of write commands with at most four arguments is executed to its last command
exactly when every read finds free space in the read buffer and the replies of all
commands but the last fit into the write buffer that nobody drains. -/
theorem fkBlogLoad_whole_iff (fkCmdEval : Handler) (svr : FkSvr) (maxWbuf : Nat)
    (commands : List (List Bytes)) (wellFormed : ∀ args ∈ commands, Admissible args ∧
      args.length ≤ 4 ∧ WriteCommand fkCmdEval args) :
    let log := (commands.map enc).flatten
    let conn := fkConnCreate .fake maxWbuf
    let start : Work := ⟨svr, conn.toFkConnOut⟩
    (fkBlogLoad (fkConnProcCmd fkCmdEval) [] conn.toFkConnIn start log).handed = commands.map
      (List.map some) ↔ readsFit (log.length + 1) .start log = true ∧
      repliesFit fkCmdEval maxWbuf start commands = true := by
  intro log conn start
  have finishes : Finishes .idle log commands :=
    finishes_enc fun args member => (wellFormed args member).1
  have loaded := @blogLoop_whole_iff _ (fkConnProcCmd fkCmdEval) _ _ _ start log commands
    (Nat.lt_succ_self log.length) (fkConnCreate_loads .fake maxWbuf) finishes
    (fun args member => (wellFormed args member).2.1)
  have undrained : Undrained maxWbuf start.out.wbuf := ⟨rfl, rfl⟩
  have replies := execAll_repliesFit (fun args member =>
    ⟨List.ne_nil_of_length_pos (wellFormed args member).1.pos,
      (wellFormed args member).2.2⟩) undrained
  rw [← replies]
  exact loaded

/-- A short log with a `SET` in lower case. -/
theorem fkBlogLoad_whole_three :
    let set : List Bytes := [ascii "set", ascii "k", ascii "v"]
    let commands : List (List Bytes) := [set, [ascii "DEL", ascii "k"], set]
    let log := (commands.map enc).flatten
    let conn := fkConnCreate .fake 16
    let start : Work := ⟨fkSvrInit 1 false (fun _ => 0) (fun _ => 0), conn.toFkConnOut⟩
    (∀ args ∈ commands, Admissible args ∧ args.length ≤ 4 ∧
      WriteCommand (fun _ => Act.fault) args) ∧
      (fkBlogLoad (fkConnProcCmd fun _ => Act.fault) [] conn.toFkConnIn start log).handed =
        commands.map (List.map some) := by
  intro set commands log conn start
  have short : ∀ args ∈ commands, 1 ≤ args.length ∧ args.length ≤ 4 ∧
      (∀ arg ∈ args, arg.length ≤ 3) ∧
        isWrite (fun _ => Act.fault) (fkStr2upper (args.headD [])) args.length = true := by
    decide +kernel
  have wellFormed : ∀ args ∈ commands, Admissible args ∧ args.length ≤ 4 ∧
      WriteCommand (fun _ => Act.fault) args := by
    intro args member
    obtain ⟨pos, few, lens, write⟩ := short args member
    exact ⟨⟨pos, Nat.le_trans few (by decide), fun arg inside => Nat.le_trans (lens arg inside)
      (by decide)⟩, few, write⟩
  have reads : readsFit (log.length + 1) .start log = true := by decide +kernel
  have replies : repliesFit (fun _ => Act.fault) 16 start commands = true := by decide +kernel
  exact ⟨wellFormed, (fkBlogLoad_whole_iff _ _ 16 commands wellFormed).mpr ⟨reads, replies⟩⟩

/-- Three replies of five bytes fill a write buffer of sixteen; the fourth `SET` gives up and
the fifth is never run. -/
theorem fkBlogLoad_stops_early :
    let set : List Bytes := [ascii "SET", ascii "k", ascii "v"]
    let commands : List (List Bytes) := [set, set, set, set, set]
    let log := (commands.map enc).flatten
    let conn := fkConnCreate .fake 16
    let start : Work := ⟨fkSvrInit 1 false (fun _ => 0) (fun _ => 0), conn.toFkConnOut⟩
    let result := fkBlogLoad (fkConnProcCmd fun _ => Act.fault) [] conn.toFkConnIn start log
    (∀ args ∈ commands, args.length ≤ 4 ∧
      isWrite (fun _ => Act.fault) (fkStr2upper (args.headD [])) args.length = true) ∧
      result.handed = [set, set, set, set].map (List.map some) ∧ result.ending = .closes := by
  decide +kernel

end Freekick
