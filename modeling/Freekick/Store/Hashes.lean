import Freekick.Store.ErrorReply
import Freekick.Store.Expired

/-!
# Fields of hashes: `fk_svr_hash.c`

`HSET` adds a field with `fk_dict_add`, which leaves a field that is there alone, and
answers 1 in either case.  `HGET` finds what the last `HSET` was answered for as long as no
`HSET` meets a field with another value, and every new field gets its answer.
-/

namespace Freekick

open Lib.Call Lib.Steps

/-! ## Hashes in a keyspace -/

/-- The fields of a value. -/
def Value.fields : Option Value → Bytes → Option Bytes
  | some (.hash fields) => fields
  | _ => fun _ => none

def Keyspace.field (space : Keyspace) (hkey key : Bytes) : Option Bytes :=
  Value.fields (space.values hkey) key

/-- The key holds something other than a hash. -/
def Keyspace.Mistyped (space : Keyspace) (hkey : Bytes) : Prop :=
  match space.values hkey with
  | none => False
  | some (.hash _) => False
  | some _ => True

instance (space : Keyspace) (hkey : Bytes) : Decidable (space.Mistyped hkey) := by
  unfold Keyspace.Mistyped
  split <;> infer_instance

/-! ## What a client was told -/

/-- The request is answered with the number 1. -/
def AnswersOne (fkCmdEval : Handler) (args : List Bytes) (work : Work) : Prop :=
  ∃ result ∈ fkConnProcCmd fkCmdEval work (args.map some),
    result.2.out.wbuf.payload = work.out.wbuf.payload ++ ascii ":1\r\n"

instance (fkCmdEval : Handler) (args : List Bytes) (work : Work) :
    Decidable (AnswersOne fkCmdEval args work) := by
  unfold AnswersOne
  infer_instance

namespace Cmd

/-- The values of the last `HSET` commands that were answered 1 and not made void since. -/
def noteHset (answered : Prop) [Decidable answered] (note : Bytes → Bytes → Option Bytes) :
    Cmd → Bytes → Bytes → Option Bytes
  | .hset hkey key value =>
      fun other field => if answered ∧ other = hkey ∧ field = key then some value
        else note other field
  | .del keys => fun other field => if other ∈ keys then none else note other field
  | .set key _ => fun other field => if other = key then none else note other field
  | _ => note

/-- An `HSET` on a hash changes a field exactly when it is answered: the reply is accepted
and the field is not there with another value, or it is refused and the field is there. -/
def Firm (space : Keyspace) (wbuf : FkBuf) : Cmd → Prop
  | .hset hkey key value => ¬ space.Mistyped hkey →
      if wbuf.Refuses 4 then (space.field hkey key).isSome
      else space.field hkey key = none ∨ space.field hkey key = some value
  | _ => True

instance (space : Keyspace) (wbuf : FkBuf) : (cmd : Cmd) → Decidable (cmd.Firm space wbuf)
  | .hset hkey key value => inferInstanceAs (Decidable (¬ space.Mistyped hkey →
      if wbuf.Refuses 4 then (space.field hkey key).isSome
      else space.field hkey key = none ∨ space.field hkey key = some value))
  | .set .. | .setnx .. | .setex .. | .mset .. | .mget .. | .get .. | .del .. | .flushdb |
    .existing .. | .flushall | .hget .. |
    .push .. | .pop .. | .llen .. | .save | .select .. | .zadd .. | .refused .. => isTrue trivial

def Hashing : Cmd → Prop
  | .hset _ _ _ => True
  | .hget _ _ => True
  | .del _ => True
  | .set _ _ => True
  | .refused _ => True
  | _ => False

end Cmd

def hashNames : List Bytes := [ascii "HSET", ascii "HGET", ascii "DEL", ascii "SET"]

theorem cmdOf_hashing {args : List Bytes} (named : fkStr2upper (args.headD []) ∈ hashNames) :
    (cmdOf args).Hashing := by
  have asks := cmdOf_asks args
  generalize fkStr2upper (args.headD []) = name at asks named
  generalize args.tail = rest at asks
  generalize cmdOf args = cmd at asks
  cases asks with
  | hset | hget | del | set | refused => trivial
  | _ => exact absurd named (by decide)

/-- The event is a command on hashes, or no command. -/
def Event.Hashing : Event → Prop
  | .command _ args => fkStr2upper (args.headD []) ∈ hashNames
  | _ => True

section Noted

variable (fkCmdEval : Handler) (idx : Nat)

/-- What is noted about the fields in a database. -/
def lastHset (note : Bytes → Bytes → Option Bytes) (sys : FkSystem) :
    Event → Bytes → Bytes → Option Bytes
  | .command client args =>
      match sys.conns client with
      | none => note
      | some out =>
          if out.dbIdx = idx then (cmdOf args).noteHset (AnswersOne fkCmdEval args ⟨sys.svr, out⟩)
            note else note
  | _ => note

end Noted

/-- The commands on a database are firm. -/
def FirmHset (idx : Nat) (sys : FkSystem) : Event → Prop
  | .command client args => ∀ out, sys.conns client = some out → out.dbIdx = idx →
      (cmdOf args).Firm (sys.svr.spaces idx) out.wbuf
  | _ => True

instance (idx : Nat) (sys : FkSystem) (event : Event) : Decidable (FirmHset idx sys event) :=
  match event with
  | .command client args =>
      inferInstanceAs (Decidable (∀ out ∈ sys.conns client, out.dbIdx = idx →
        (cmdOf args).Firm (sys.svr.spaces idx) out.wbuf))
  | .connect _ => isTrue trivial
  | .sent _ _ => isTrue trivial
  | .close _ => isTrue trivial

/-! ## What a command does to the fields -/

section Fields

variable {dbcnt : Nat} {clock : Nat → Int} {space : Keyspace} {cmd : Cmd} {answer : Answer}
  {wbuf : FkBuf} {answered : Prop} [Decidable answered]

theorem Keyspace.field_put (space : Keyspace) (key : Bytes) (value : Value) (hkey field : Bytes) :
    (space.put key value).field hkey field = if hkey = key then Value.fields (some value) field
      else space.field hkey field := by
  unfold Keyspace.field
  change Value.fields (Function.update space.values key (some value) hkey) field = _
  by_cases same : hkey = key
  · rw [same, Function.update_self, if_pos rfl]
  · rw [Function.update_of_ne same, if_neg same]

theorem Keyspace.field_drop (space : Keyspace) (keys : List Bytes) (hkey field : Bytes) :
    (space.drop keys).field hkey field = if hkey ∈ keys then none else space.field hkey field := by
  unfold Keyspace.field
  change Value.fields (if hkey ∈ keys then none else space.values hkey) field = _
  split <;> rfl

/-- `fk_dict_add` on the fields of a hash. -/
theorem fields_add (fields : Bytes → Option Bytes) (key value field : Bytes) :
    (if (fields key).isSome then fields else Function.update fields key (some value)) field =
      if field = key ∧ fields key = none then some value else fields field := by
  cases there : fields key with
  | none =>
      rw [if_neg (by simp)]
      by_cases named : field = key
      · rw [named, Function.update_self, if_pos ⟨rfl, rfl⟩]
      · rw [Function.update_of_ne named, if_neg (fun both => named both.1)]
  | some old => rw [if_pos Option.isSome_some, if_neg (fun both => nomatch both.2)]

/-- An `HSET` on a key that is free or holds a hash. -/
theorem Cmd.run_hset {hkey key value : Bytes} (typed : ¬ space.Mistyped hkey)
    (ran : (hset hkey key value).run dbcnt clock space = some answer) :
    answer.reply = .int 1 ∧ ∀ other field, answer.space.field other field =
      if other = hkey ∧ field = key ∧ space.field hkey key = none then some value
      else space.field other field := by
  unfold Keyspace.Mistyped at typed
  rw [run] at ran
  cases held : space.values hkey with
  | none =>
      rw [held] at ran
      cases ran
      refine ⟨rfl, fun other field => ?_⟩
      have absent : ∀ field, space.field hkey field = none := by
        intro field
        rw [Keyspace.field, held]
        rfl
      rw [Keyspace.field_put, absent]
      change (if other = hkey then Function.update (fun _ => none) key (some value) field else _) =
        _
      by_cases same : other = hkey
      · rw [if_pos same]
        by_cases named : field = key
        · rw [named, Function.update_self, if_pos ⟨same, rfl, rfl⟩]
        · rw [Function.update_of_ne named, if_neg (fun all => named all.2.1), same, absent]
      · rw [if_neg same, if_neg (fun all => same all.1)]
  | some found =>
      rw [held] at ran typed
      cases found with
      | hash fields =>
          have known : ∀ field, space.field hkey field = fields field := by
            intro field
            rw [Keyspace.field, held]
            rfl
          cases ran
          refine ⟨rfl, fun other field => ?_⟩
          rw [Keyspace.field_put, known]
          change (if other = hkey then (if (fields key).isSome then fields
            else Function.update fields key (some value)) field else _) = _
          by_cases same : other = hkey
          · rw [if_pos same, same, known, fields_add]
            simp only [true_and]
          · rw [if_neg same, if_neg (fun all => same all.1)]
      | _ => exact absurd trivial typed

theorem Cmd.run_mistyped {hkey key value : Bytes} (mistyped : space.Mistyped hkey)
    (ran : cmd.run dbcnt clock space = some answer)
    (known : cmd = .hset hkey key value ∨ cmd = .hget hkey key) :
    answer.reply = .error fkRspTypeErr ∧ answer.space = space := by
  unfold Keyspace.Mistyped at mistyped
  rcases known with rfl | rfl <;> rw [run] at ran <;> cases held : space.values hkey with
  | none =>
      rw [held] at mistyped
      exact mistyped.elim
  | some found =>
      rw [held] at mistyped ran
      cases found with
      | hash => exact mistyped.elim
      | _ =>
          cases ran
          exact ⟨rfl, rfl⟩

/-- The notes follow the fields. -/
theorem Cmd.run_noteHset (hashing : cmd.Hashing) (firm : cmd.Firm space wbuf)
    (ran : cmd.run dbcnt clock space = some answer)
    (told : ∀ hkey key value, cmd = .hset hkey key value →
      (answered ↔ answer.reply = .int 1 ∧ ¬ wbuf.Refuses 4))
    (hkey field : Bytes) :
    answer.space.field hkey field = cmd.noteHset answered space.field hkey field := by
  cases cmd with
  | hset other key value =>
      have told := told other key value rfl
      change _ = if answered ∧ hkey = other ∧ field = key then some value
        else space.field hkey field
      by_cases mistyped : space.Mistyped other
      · obtain ⟨reply, same⟩ := @run_mistyped _ _ _ _ _ _ _ value mistyped ran (.inl rfl)
        have unanswered : ¬ answered := by
          rw [told, reply]
          exact fun both => nomatch both.1
        rw [same, if_neg (fun all => unanswered all.1)]
      · obtain ⟨reply, fields⟩ := run_hset mistyped ran
        have firm := firm mistyped
        rw [fields]
        by_cases refuses : wbuf.Refuses 4
        · have unanswered : ¬ answered := fun yes => (told.mp yes).2 refuses
          rw [if_pos refuses, Option.isSome_iff_ne_none] at firm
          rw [if_neg (fun all => firm all.2.2), if_neg (fun all => unanswered all.1)]
        · have yes : answered := told.mpr ⟨reply, refuses⟩
          rw [if_neg refuses] at firm
          by_cases here : hkey = other ∧ field = key
          · obtain ⟨rfl, rfl⟩ := here
            rw [@if_pos (answered ∧ _) _ ⟨yes, rfl, rfl⟩]
            rcases firm with absent | same
            · exact if_pos ⟨rfl, rfl, absent⟩
            · rw [same]
              split <;> rfl
          · rw [if_neg (fun all => here ⟨all.1, all.2.1⟩), if_neg (fun all => here all.2)]
  | del keys =>
      cases ran
      exact space.field_drop keys hkey field
  | set key value =>
      cases ran
      exact space.field_put key (.str value) hkey field
  | hget => cases ran; rfl
  | refused => cases ran; rfl
  | _ => exact hashing.elim

end Fields

/-! ## What is queued for a command -/

section Answered

variable {good : Bytes → Prop} {fkCmdEval : Handler} {work : Work} {args : List Bytes}
  {answer : Answer}

theorem Rsp.queueAll_single_err {junk : Nat → UInt8} {rsp : Rsp} {wbuf : FkBuf} :
    (∃ after, queueAll junk [rsp] wbuf = .err after) ↔ wbuf.Refuses rsp.len := by
  rw [← @Rsp.queue_err_iff junk]
  have same : queueAll junk [rsp] wbuf = rsp.queue junk wbuf := by
    change (rsp.queue junk >>= fun _ => pure ()) wbuf = _
    rw [Act.bind_unit]
  rw [same]

/-- An `HSET` is answered 1 when its reply is accepted, unless the type is wrong. -/
theorem answersOne_iff {hkey key value : Bytes} (nonempty : args ≠ [])
    (notEval : fkStr2upper (args.headD []) ≠ ascii "EVAL")
    (ok : SvrOk good work.svr) (timed : work.svr.Timed) (asked : cmdOf args = .hset hkey key value)
    (ran : work.answer work.svr.spaces (cmdOf args) = some answer)
    (defined : queueAll work.svr.junk answer.reply.calls work.out.wbuf ≠ .fault) :
    AnswersOne fkCmdEval args work ↔ answer.reply = .int 1 ∧ ¬ work.out.wbuf.Refuses 4 := by
  have dispatched := @procArgs_dispatched good fkCmdEval work _ args nonempty notEval ok timed.holds
  unfold AnswersOne
  rw [fkConnProcCmd_args]
  -- The replies that an `HSET` can have.
  have replies : answer.reply = .int 1 ∨ answer.reply = .error fkRspTypeErr := by
    rw [asked] at ran
    by_cases mistyped : (work.svr.spaces work.out.dbIdx).Mistyped hkey
    · exact .inr (Cmd.run_mistyped mistyped ran (.inl rfl)).1
    · exact .inl (Cmd.run_hset mistyped ran).1
  have small : (Rsp.int 1).len = 4 := by decide
  generalize procArgs fkCmdEval args work = outcome at dispatched
  rcases dispatched.known ran with ⟨_, overflows⟩ | ⟨wbuf, after, rfl, queued⟩ |
      ⟨wbuf, after, rfl, queued, _⟩
  · exact absurd overflows defined
  · refine iff_of_false ?_ ?_
    · rintro ⟨result, returned, payload⟩
      cases returned
      change wbuf.payload = _ at payload
      have unchanged : wbuf.payload = work.out.wbuf.payload := by
        rcases replies with reply |
            reply <;> rw [reply] at queued <;> exact queueAll_single_err_payload queued
      rw [unchanged] at payload
      have none := List.append_cancel_left ((List.append_nil _).trans payload)
      revert none
      decide
    · rintro ⟨reply, accepted⟩
      rw [reply] at queued
      exact accepted (small ▸ Rsp.queueAll_single_err.mp ⟨wbuf, queued⟩)
  · obtain ⟨space, known⟩ := queued_of_ok queued
    have payload : wbuf.payload = work.out.wbuf.payload ++ answer.reply.queued work.svr.junk :=
      known.payload
    have one : (Reply.int 1).queued work.svr.junk = ascii ":1\r\n" :=
      (queued_int 1).trans (by decide)
    rcases replies with reply | reply
    · rw [reply, one] at payload
      refine iff_of_true ⟨_, rfl, payload⟩ ⟨reply, fun refuses => ?_⟩
      rw [← small] at refuses
      obtain ⟨wrong, refused⟩ := (@Rsp.queueAll_single_err work.svr.junk _ _).mpr refuses
      rw [reply] at queued
      cases queued.symm.trans refused
    · rw [reply] at payload
      refine iff_of_false ?_ (fun both => nomatch reply.symm.trans both.1)
      rintro ⟨result, returned, answered⟩
      cases returned
      have both := List.append_cancel_left (payload.symm.trans answered)
      rw [← one] at both
      exact queued_typeErr_ne_int both

end Answered

/-! ## Whole runs -/

section Runs

variable {fkCmdEval : Handler} {maxWbuf idx : Nat} {sys next : FkSystem}
  {note : Bytes → Bytes → Option Bytes}

/-- The notes are the fields of the database. -/
def FkSvr.Notes (svr : FkSvr) (idx : Nat) (note : Bytes → Bytes → Option Bytes) : Prop :=
  ∀ hkey key, (svr.spaces idx).field hkey key = note hkey key

theorem Commanded.notes {client : Nat} {args : List Bytes}
    (commanded : Commanded fkCmdEval sys client args next)
    (admitted : Admitted args) (named : fkStr2upper (args.headD []) ∈ hashNames) (sound : sys.Sound)
    (inside : idx < sys.svr.dbcnt) (notes : sys.svr.Notes idx note)
    (firm : FirmHset idx sys (.command client args)) :
    next.svr.Notes idx (lastHset fkCmdEval idx note sys (.command client args)) := by
  have hashing := cmdOf_hashing named
  have uncut : ∀ count, (cmdOf args).cut count = cmdOf args := by
    intro count
    generalize cmdOf args = cmd at hashing
    cases cmd <;> first | rfl | exact hashing.elim
  -- What the command leaves in the database, in either case.
  have step : ∀ {out : FkConnOut} {answer : Answer} {after : Work}, sys.conns client = some out →
      Work.answer ⟨sys.svr, out⟩ sys.svr.spaces (cmdOf args) = some answer →
      queueAll sys.svr.junk answer.reply.calls out.wbuf ≠ .fault →
      Leaves ⟨sys.svr, out⟩ sys.svr.spaces (cmdOf args) answer after →
      after.svr.Notes idx (lastHset fkCmdEval idx note sys (.command client args)) := by
    intro out answer after connected ran defined leaves hkey key
    rw [lastHset, connected, leaves.holds.spaces_eq]
    change ((cmdOf args).after sys.svr.dbcnt out.dbIdx sys.svr.spaces answer.space idx).field hkey
      key = (if out.dbIdx = idx then _ else note) hkey key
    by_cases own : out.dbIdx = idx
    · subst own
      have told : ∀ hkey key value, cmdOf args = .hset hkey key value →
          (AnswersOne fkCmdEval args ⟨sys.svr, out⟩ ↔ answer.reply = .int 1 ∧
            ¬ out.wbuf.Refuses 4) :=
        fun _ _ _ asked => @answersOne_iff _ _ ⟨sys.svr, out⟩ _ _ _ _ _ admitted.nonempty
          admitted.notEval sound.ok sound.timed asked ran defined
      have same : note = (sys.svr.spaces out.dbIdx).field := by
        funext hkey key
        exact (notes hkey key).symm
      rw [if_pos rfl, Cmd.after_own inside ran, same]
      exact Cmd.run_noteHset hashing (firm out connected rfl) ran told hkey key
    · have kept : cmdOf args ≠ .flushall := by
        intro all
        rw [all] at hashing
        exact hashing.elim
      rw [if_neg own, Cmd.after_other inside own, if_neg kept]
      exact notes hkey key
  cases commanded with
  | absent gone =>
      rw [lastHset, gone]
      exact notes
  | @refused out answer part count wbuf after connected ran queued cut leaves =>
      rw [uncut] at cut leaves
      cases ran.symm.trans cut
      exact step connected ran (by rw [queued]; nofun) leaves
  | @done out answer wbuf after connected ran queued leaves =>
      change after.svr.Notes idx _
      exact step connected ran (by rw [queued]; nofun) leaves

/-- The steps of a server with the notes about the fields in a database. -/
def notedHsets (fkCmdEval : Handler) (maxWbuf idx : Nat) :
    FkSystem × (Bytes → Bytes → Option Bytes) → Event →
      Option (FkSystem × (Bytes → Bytes → Option Bytes)) :=
  noting (FkSystem.step fkCmdEval maxWbuf) (lastHset fkCmdEval idx)

/-- What holds between two steps. -/
structure FkSystem.Noted (idx : Nat)
    (noted : FkSystem × (Bytes → Bytes → Option Bytes)) : Prop where
  sound : noted.1.Sound
  inside : idx < noted.1.svr.dbcnt
  notes : noted.1.svr.Notes idx noted.2

theorem FkSystem.step_noted {event : Event} (admitted : event.Admitted) (hashing : event.Hashing)
    (noted : FkSystem.Noted idx (sys, note)) (firm : FirmHset idx sys event)
    (stepped : sys.step fkCmdEval maxWbuf event = some next) :
    FkSystem.Noted idx (next, lastHset fkCmdEval idx note sys event) := by
  obtain ⟨sound, dbcnt⟩ := FkSystem.step_sound (Nat.zero_lt_of_lt noted.inside) admitted
    noted.sound stepped
  refine ⟨sound, Nat.lt_of_lt_of_eq noted.inside dbcnt.symm, ?_⟩
  cases event with
  | command client args =>
      exact (FkSystem.command_commanded admitted noted.sound.ok noted.sound.timed stepped).notes
        admitted hashing noted.sound noted.inside noted.notes firm
  | connect client =>
      cases stepped
      exact noted.notes
  | sent client count =>
      cases stepped
      exact noted.notes
  | close client =>
      cases stepped
      exact noted.notes

/-- The answer that `HGET` should give. -/
def hgetAnswer (space : Keyspace) (note : Bytes → Bytes → Option Bytes)
    (hkey key : Bytes) : Reply :=
  if space.Mistyped hkey then .error fkRspTypeErr
  else
    match note hkey key with
    | none => .nil
    | some value => .bulk value

theorem hgetReply_eq (space : Keyspace) (hkey key : Bytes) :
    hgetReply key (space.values hkey) = hgetAnswer space space.field hkey key := by
  unfold hgetAnswer Keyspace.field
  by_cases mistyped : space.Mistyped hkey
  · rw [if_pos mistyped]
    unfold Keyspace.Mistyped at mistyped
    cases held : space.values hkey with
    | none =>
        rw [held] at mistyped
        exact mistyped.elim
    | some value =>
        rw [held] at mistyped
        cases value <;> first | rfl | exact mistyped.elim
  · rw [if_neg mistyped]
    unfold Keyspace.Mistyped at mistyped
    cases held : space.values hkey with
    | none => rfl
    | some value =>
        rw [held] at mistyped
        cases value <;> first | rfl | exact absurd trivial mistyped

theorem cmdOf_hset {name : Bytes} (named : fkStr2upper name = ascii "HSET")
    (hkey key value : Bytes) :
    cmdOf [name, hkey, key, value] = .hset hkey key value := by
  rw [show cmdOf [name, hkey, key, value] = Cmd.read (fkStr2upper name) [hkey, key, value] from rfl,
    named]
  rfl

theorem FkSystem.Noted.hget (noted : FkSystem.Noted idx (sys, note)) {out : FkConnOut}
    (own : out.dbIdx = idx) {name : Bytes} (named : fkStr2upper name = ascii "HGET")
    (hkey key : Bytes) :
    RepliesWith (procArgs fkCmdEval [name, hkey, key] ⟨sys.svr, out⟩) ⟨sys.svr, out⟩
      (hgetAnswer (sys.svr.spaces idx) note hkey key) := by
  subst own
  have dispatched := @procArgs_dispatched ArgName fkCmdEval ⟨sys.svr, out⟩ sys.svr.spaces
    [name, hkey, key] (List.cons_ne_nil _ _) (by rw [List.headD_cons, named]; decide) noted.sound.ok
      noted.sound.timed.holds
  have same : note = (sys.svr.spaces out.dbIdx).field := by
    funext hkey key
    exact (noted.notes hkey key).symm
  have ran : Work.answer ⟨sys.svr, out⟩ sys.svr.spaces (cmdOf [name, hkey, key]) =
      some ⟨hgetAnswer (sys.svr.spaces out.dbIdx) note hkey key, sys.svr.spaces out.dbIdx, 0⟩ := by
    rw [cmdOf_hget named, Work.answer, Cmd.run, hgetReply_eq, same]
  exact dispatched.repliesWith ran

/-- `HSET` and `HGET` on a key of another type. -/
theorem mistyped_unchanged (sound : sys.Sound) {out : FkConnOut} {hkey key value : Bytes}
    (mistyped : (sys.svr.spaces out.dbIdx).Mistyped hkey) {args : List Bytes} (nonempty : args ≠ [])
    (notEval : fkStr2upper (args.headD []) ≠ ascii "EVAL")
    (asked : cmdOf args = .hset hkey key value ∨ cmdOf args = .hget hkey key) :
    RepliesWith (procArgs fkCmdEval args ⟨sys.svr, out⟩) ⟨sys.svr, out⟩ (.error fkRspTypeErr) ∧
      ∀ rt after, fkConnProcCmd fkCmdEval ⟨sys.svr, out⟩ (args.map some) = some (rt, after) →
        after.svr.spaces = sys.svr.spaces := by
  have dispatched := @procArgs_dispatched ArgName fkCmdEval ⟨sys.svr, out⟩ sys.svr.spaces args
    nonempty notEval sound.ok sound.timed.holds
  have defined : ∃ answer, Work.answer ⟨sys.svr, out⟩ sys.svr.spaces (cmdOf args) =
      some answer := by
    rw [Work.answer]
    cases ran : (cmdOf args).run sys.svr.dbcnt (Work.clockOn ⟨sys.svr, out⟩)
      (sys.svr.spaces out.dbIdx) with
    | some answer => exact ⟨answer, rfl⟩
    | none =>
        rcases asked with same | same <;> rw [same, Cmd.run] at ran
        · split at ran <;> cases ran
        · cases ran
  obtain ⟨answer, ran⟩ := defined
  obtain ⟨reply, space⟩ := @Cmd.run_mistyped _ _ _ _ _ _ _ value mistyped ran asked
  refine ⟨reply ▸ dispatched.repliesWith ran, fun rt after called => ?_⟩
  have uncut : ∀ count, (cmdOf args).cut count = cmdOf args := by
    intro count
    rcases asked with same | same <;> rw [same] <;> rfl
  rw [fkConnProcCmd_args] at called
  generalize procArgs fkCmdEval args ⟨sys.svr, out⟩ = outcome at dispatched called
  cases dispatched with
  | crashed => cases called
  | overflow => cases called
  | refused again queued cut leaves =>
      cases called
      rw [uncut] at cut leaves
      cases ran.symm.trans cut
      exact leaves.holds.spaces_eq.trans (Cmd.run_error_after ran reply)
  | done again queued leaves =>
      cases called
      cases ran.symm.trans again
      exact leaves.holds.spaces_eq.trans (Cmd.run_error_after ran reply)

/-- As long as all `HSET` commands are firm, `HGET` answers the value of the last one that
was answered 1 after the key was deleted or set. -/
theorem fkSystem_hget_last (fkCmdEval : Handler) (maxWbuf : Nat) {dbcnt idx : Nat} {blogOn : Bool}
    {clock : Nat → Int} {junk : Nat → UInt8} {events : List Event} {sys : FkSystem}
    {note : Bytes → Bytes → Option Bytes} (inside : idx < dbcnt)
    (admitted : ∀ event ∈ events, event.Admitted ∧ event.Hashing)
    (firm : Throughout (notedHsets fkCmdEval maxWbuf idx) (fun noted => FirmHset idx noted.1)
      (fkSystemInit dbcnt blogOn clock junk, fun _ _ => none) events)
    (reached : run (notedHsets fkCmdEval maxWbuf idx)
      (fkSystemInit dbcnt blogOn clock junk, fun _ _ => none) events = some (sys, note)) :
    ∀ out : FkConnOut, out.dbIdx = idx → ∀ hkey key,
      (∀ name, fkStr2upper name = ascii "HGET" →
        RepliesWith (procArgs fkCmdEval [name, hkey, key] ⟨sys.svr, out⟩)
        ⟨sys.svr, out⟩ (hgetAnswer (sys.svr.spaces idx) note hkey key)) ∧
      ((sys.svr.spaces idx).Mistyped hkey → ∀ name value args,
        (fkStr2upper name = ascii "HGET" ∧ args = [name, hkey, key] ∨
          fkStr2upper name = ascii "HSET" ∧ args = [name, hkey, key, value]) →
        RepliesWith (procArgs fkCmdEval args ⟨sys.svr, out⟩) ⟨sys.svr, out⟩ (.error fkRspTypeErr) ∧
          ∀ rt after, fkConnProcCmd fkCmdEval ⟨sys.svr, out⟩ (args.map some) = some (rt, after) →
            after.svr.spaces = sys.svr.spaces) := by
  have start : FkSystem.Noted idx (fkSystemInit dbcnt blogOn clock junk, fun _ _ => none) := by
    refine ⟨fkSystemInit_sound dbcnt blogOn clock junk, inside, fun hkey key => ?_⟩
    change Value.fields (dbMap fkDictCreate hkey) key = none
    rw [dbMap, fkDictCreate, fkDictGet_init dbDictEop_lawful]
    rfl
  have last : FkSystem.Noted idx (sys, note) := by
    refine run_keeps (fun pair event next noted good here stepped => ?_) start admitted firm reached
    obtain ⟨after, moved, rfl⟩ := Option.map_eq_some_iff.mp stepped
    exact FkSystem.step_noted good.1 good.2 noted here moved
  intro out own hkey key
  refine ⟨fun name named => last.hget own named hkey key, fun mistyped name value args asks => ?_⟩
  rw [← own] at mistyped
  rcases asks with ⟨named, rfl⟩ | ⟨named, rfl⟩
  · exact @mistyped_unchanged _ _ last.sound _ _ _ value mistyped _ (List.cons_ne_nil _ _)
      (by rw [List.headD_cons, named]; decide) (.inr (cmdOf_hget named hkey key))
  · exact mistyped_unchanged last.sound mistyped (List.cons_ne_nil _ _)
      (by rw [List.headD_cons, named]; decide) (.inl (cmdOf_hset named hkey key value))

end Runs

instance (event : Event) : Decidable event.Hashing :=
  match event with
  | .command _ args => inferInstanceAs (Decidable (fkStr2upper (args.headD []) ∈ hashNames))
  | .connect _ => isTrue trivial
  | .sent _ _ => isTrue trivial
  | .close _ => isTrue trivial

/-- A field is set, and a string. -/
def hsetEvents : List Event :=
  [.connect 0, .command 0 [ascii "HSET", ascii "h", ascii "f", ascii "a"],
    .command 0 [ascii "SET", ascii "s", ascii "v"]]

theorem fkSystem_hget_last_set :
    ∃ sys note, run (notedHsets (fun _ => Act.fault) 1024 0)
      (fkSystemInit 1 false fastClock (fun _ => 0), fun _ _ => none)
        hsetEvents = some (sys, note) ∧ note (ascii "h") (ascii "f") = some (ascii "a") ∧
      ∀ out : FkConnOut, out.dbIdx = 0 → ∀ hkey key,
        (∀ name, fkStr2upper name = ascii "HGET" →
          RepliesWith (procArgs (fun _ => Act.fault) [name, hkey, key] ⟨sys.svr, out⟩)
          ⟨sys.svr, out⟩ (hgetAnswer (sys.svr.spaces 0) note hkey key)) ∧
        ((sys.svr.spaces 0).Mistyped hkey → ∀ name value args,
          (fkStr2upper name = ascii "HGET" ∧ args = [name, hkey, key] ∨
            fkStr2upper name = ascii "HSET" ∧ args = [name, hkey, key, value]) →
          RepliesWith (procArgs (fun _ => Act.fault) args ⟨sys.svr, out⟩) ⟨sys.svr, out⟩
            (.error fkRspTypeErr) ∧ ∀ rt after, fkConnProcCmd (fun _ => Act.fault) ⟨sys.svr, out⟩
              (args.map some) = some (rt, after) → after.svr.spaces = sys.svr.spaces) := by
  have known : (run (notedHsets (fun _ => Act.fault) 1024 0)
      (fkSystemInit 1 false fastClock (fun _ => 0), fun _ _ => none)
      hsetEvents).map (fun pair => pair.2 (ascii "h") (ascii "f")) = some (some (ascii "a")) :=
      by decide +kernel
  obtain ⟨⟨sys, note⟩, reached, noted⟩ := Option.map_eq_some_iff.mp known
  refine ⟨sys, note, reached, noted, fkSystem_hget_last (fun _ => Act.fault) 1024
    (by decide) ?_ ?_ reached⟩
  · decide +kernel
  · decide +kernel

/-- The field is set twice. -/
def hsetTwice : List Event :=
  [.connect 0, .command 0 [ascii "HSET", ascii "h", ascii "f", ascii "a"],
    .command 0 [ascii "HSET", ascii "h", ascii "f", ascii "b"]]

/-- Both commands are answered 1, and `HGET` answers the first value. -/
theorem fkSystem_hget_first :
    ∃ sys note, run (notedHsets (fun _ => Act.fault) 1024 0)
      (fkSystemInit 1 false fastClock (fun _ => 0), fun _ _ => none)
        hsetTwice = some (sys, note) ∧ (∀ event ∈ hsetTwice, event.Admitted ∧ event.Hashing) ∧
      note (ascii "h") (ascii "f") = some (ascii "b") ∧ ∃ out, sys.conns 0 = some out ∧
        out.dbIdx = 0 ∧
        ¬ RepliesWith (procArgs (fun _ => Act.fault) [ascii "HGET", ascii "h", ascii "f"]
          ⟨sys.svr, out⟩) ⟨sys.svr, out⟩ (.bulk (ascii "b")) := by
  have known : (run (notedHsets (fun _ => Act.fault) 1024 0)
      (fkSystemInit 1 false fastClock (fun _ => 0), fun _ _ => none)
      hsetTwice).bind (fun pair => (pair.1.conns 0).map fun out =>
        (pair.2 (ascii "h") (ascii "f"), out.dbIdx, wrote
          (procArgs (fun _ => Act.fault) [ascii "HGET", ascii "h", ascii "f"] ⟨pair.1.svr, out⟩),
        wrote (sendAll (Reply.bulk (ascii "b")).calls ⟨pair.1.svr, out⟩))) =
      some (some (ascii "b"), 0, some (ascii ":1\r\n:1\r\n$1\r\na\r\n"),
        some (ascii ":1\r\n:1\r\n$1\r\nb\r\n")) := by
    decide +kernel
  obtain ⟨⟨sys, note⟩, reached, found⟩ := Option.bind_eq_some_iff.mp known
  obtain ⟨out, connected, parts⟩ := Option.map_eq_some_iff.mp found
  obtain ⟨noted, own, answered, wanted⟩ : note (ascii "h") (ascii "f") = _ ∧ out.dbIdx = _ ∧
      _ = _ ∧ _ = _ := by
    simpa only [Prod.mk.injEq] using parts
  refine ⟨sys, note, reached, by decide +kernel, noted, out, connected, own, fun replies => ?_⟩
  have same := wrote_of_repliesWith replies
  rw [answered, wanted] at same
  revert same
  decide

end Freekick
