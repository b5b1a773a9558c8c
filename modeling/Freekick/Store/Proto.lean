import Freekick.Blog.Append
import Freekick.Net.ReadLoop
import Freekick.Store.Cmd

/-!
# The command table and its dispatch: `fk_svr_proto.c`, `fk_conn_proc_cmd`

`EVAL` runs a script in the Lua interpreter, which is not part of this model; its
handler is a parameter.
-/

namespace Freekick

open Lib.Call

/-- `FK_PROTO_WRITE`, `FK_PROTO_READ` and `FK_PROTO_SCRIPT`. -/
inductive FkProtoType where
  | write
  | read
  | script
  deriving DecidableEq, Repr

/-- A negative `argCnt` is the least number of arguments. -/
structure FkProto where
  name : Bytes
  type : FkProtoType
  argCnt : Int
  handler : Handler

section Table

variable (fkCmdEval : Handler)

def protos : List FkProto :=
  [⟨ascii "SET", .write, 3, fkCmdSet⟩,
    ⟨ascii "SETNX", .write, 3, fkCmdSetnx⟩,
    ⟨ascii "SETEX", .write, 4, fkCmdSetex⟩,
    ⟨ascii "MSET", .write, -3, fkCmdMset⟩,
    ⟨ascii "MGET", .read, -2, fkCmdMget⟩,
    ⟨ascii "GET", .read, 2, fkCmdGet⟩,
    ⟨ascii "DEL", .write, -2, fkCmdDel⟩,
    ⟨ascii "FLUSHDB", .write, 1, fkCmdFlushdb⟩,
    ⟨ascii "EXISTS", .read, 2, fkCmdExists⟩,
    ⟨ascii "FLUSHALL", .write, 1, fkCmdFlushall⟩,
    ⟨ascii "HSET", .write, 4, fkCmdHset⟩,
    ⟨ascii "HGET", .read, 3, fkCmdHget⟩,
    ⟨ascii "LPUSH", .write, -3, fkCmdLpush⟩,
    ⟨ascii "RPUSH", .write, -3, fkCmdRpush⟩,
    ⟨ascii "LPOP", .write, 2, fkCmdLpop⟩,
    ⟨ascii "RPOP", .write, 2, fkCmdRpop⟩,
    ⟨ascii "LLEN", .read, 2, fkCmdLlen⟩,
    ⟨ascii "SAVE", .read, 1, fkCmdSave⟩,
    ⟨ascii "SELECT", .write, 2, fkCmdSelect⟩,
    ⟨ascii "EVAL", .script, -3, fkCmdEval⟩,
    ⟨ascii "ZADD", .write, -4, fkCmdZadd⟩]

/-- `fk_proto_init`; the names are hashed and compared as the keys of a database are. -/
def pmap : FkDict Bytes FkProto := fkDictOfElts ((protos fkCmdEval).map fun pto => (pto.name, pto))

def fkProtoSearch (name : Bytes) : Option FkProto := fkDictGet dbDictEop (pmap fkCmdEval) name

theorem protos_names : (protos fkCmdEval).map FkProto.name =
    ["SET", "SETNX", "SETEX", "MSET", "MGET", "GET", "DEL", "FLUSHDB", "EXISTS", "FLUSHALL",
      "HSET", "HGET", "LPUSH", "RPUSH", "LPOP", "RPOP", "LLEN", "SAVE", "SELECT", "EVAL",
      "ZADD"].map ascii := rfl

theorem protos_distinct :
    Lib.KeyedMap.Distinct dbDictEop.Same ((protos fkCmdEval).map fun pto => (pto.name, pto)) := by
  have distinct : ((protos fkCmdEval).map FkProto.name).Pairwise fun first second =>
      ¬ dbDictEop.Same first second := by
    rw [protos_names]
    decide
  exact List.pairwise_map.mpr (List.pairwise_map.mp distinct)

/-- A search gives the entry of the table with that name. -/
theorem fkProtoSearch_eq_some {name : Bytes} {pto : FkProto} :
    fkProtoSearch fkCmdEval name = some pto ↔ pto ∈ protos fkCmdEval ∧ pto.name = name := by
  obtain ⟨wf, perm⟩ := fkDictOfElts_spec (protos_distinct fkCmdEval)
  have represents := (wf.represents dbDictEop_lawful).perm perm
  rw [fkProtoSearch, pmap, represents name pto]
  constructor
  · rintro ⟨stored, member, same⟩
    obtain ⟨other, inTable, equal⟩ := List.mem_map.mp member
    obtain ⟨rfl, rfl⟩ := Prod.mk.inj equal
    exact ⟨inTable, dbDictEop_same.mp same⟩
  · rintro ⟨member, rfl⟩
    exact ⟨pto.name, List.mem_map.mpr ⟨pto, member, rfl⟩, dbDictEop_same.mpr rfl⟩

theorem fkProtoSearch_eq_none {name : Bytes} (unknown : fkProtoSearch fkCmdEval name = none) :
    ∀ pto ∈ protos fkCmdEval, pto.name ≠ name := by
  intro pto member named
  rw [(fkProtoSearch_eq_some fkCmdEval).mpr ⟨member, named⟩] at unknown
  cases unknown

theorem protos_unique {pto other : FkProto} (member : pto ∈ protos fkCmdEval)
    (also : other ∈ protos fkCmdEval) (same : pto.name = other.name) : pto = other := by
  have found := (fkProtoSearch_eq_some fkCmdEval).mpr ⟨member, same⟩
  have known := (fkProtoSearch_eq_some fkCmdEval).mpr ⟨also, rfl⟩
  exact Option.some.inj (found.symm.trans known)

/-- The entries of the table one by one. -/
theorem protos_cases {fkCmdEval : Handler}
    {motive : (pto : FkProto) → pto ∈ protos fkCmdEval → Prop}
    (set : ∀ member, motive ⟨ascii "SET", .write, 3, fkCmdSet⟩ member)
    (setnx : ∀ member, motive ⟨ascii "SETNX", .write, 3, fkCmdSetnx⟩ member)
    (setex : ∀ member, motive ⟨ascii "SETEX", .write, 4, fkCmdSetex⟩ member)
    (mset : ∀ member, motive ⟨ascii "MSET", .write, -3, fkCmdMset⟩ member)
    (mget : ∀ member, motive ⟨ascii "MGET", .read, -2, fkCmdMget⟩ member)
    (get : ∀ member, motive ⟨ascii "GET", .read, 2, fkCmdGet⟩ member)
    (del : ∀ member, motive ⟨ascii "DEL", .write, -2, fkCmdDel⟩ member)
    (flushdb : ∀ member, motive ⟨ascii "FLUSHDB", .write, 1, fkCmdFlushdb⟩ member)
    (existing : ∀ member, motive ⟨ascii "EXISTS", .read, 2, fkCmdExists⟩ member)
    (flushall : ∀ member, motive ⟨ascii "FLUSHALL", .write, 1, fkCmdFlushall⟩ member)
    (hset : ∀ member, motive ⟨ascii "HSET", .write, 4, fkCmdHset⟩ member)
    (hget : ∀ member, motive ⟨ascii "HGET", .read, 3, fkCmdHget⟩ member)
    (lpush : ∀ member, motive ⟨ascii "LPUSH", .write, -3, fkCmdLpush⟩ member)
    (rpush : ∀ member, motive ⟨ascii "RPUSH", .write, -3, fkCmdRpush⟩ member)
    (lpop : ∀ member, motive ⟨ascii "LPOP", .write, 2, fkCmdLpop⟩ member)
    (rpop : ∀ member, motive ⟨ascii "RPOP", .write, 2, fkCmdRpop⟩ member)
    (llen : ∀ member, motive ⟨ascii "LLEN", .read, 2, fkCmdLlen⟩ member)
    (save : ∀ member, motive ⟨ascii "SAVE", .read, 1, fkCmdSave⟩ member)
    (select : ∀ member, motive ⟨ascii "SELECT", .write, 2, fkCmdSelect⟩ member)
    (eval : ∀ member, motive ⟨ascii "EVAL", .script, -3, fkCmdEval⟩ member)
    (zadd : ∀ member, motive ⟨ascii "ZADD", .write, -4, fkCmdZadd⟩ member)
    (pto : FkProto) (member : pto ∈ protos fkCmdEval) : motive pto member := by
  have entry := member
  simp only [protos, List.mem_cons, List.not_mem_nil, or_false] at entry
  rcases entry with rfl | rfl | rfl | rfl | rfl | rfl | rfl | rfl | rfl | rfl | rfl |
      rfl | rfl | rfl |
    rfl | rfl | rfl | rfl | rfl | rfl | rfl
  · exact set member
  · exact setnx member
  · exact setex member
  · exact mset member
  · exact mget member
  · exact get member
  · exact del member
  · exact flushdb member
  · exact existing member
  · exact flushall member
  · exact hset member
  · exact hget member
  · exact lpush member
  · exact rpush member
  · exact lpop member
  · exact rpop member
  · exact llen member
  · exact save member
  · exact select member
  · exact eval member
  · exact zadd member

/-- `EVAL` is the only script command. -/
theorem protos_script {pto : FkProto} (member : pto ∈ protos fkCmdEval)
    (script : pto.type = .script) :
    pto.name = ascii "EVAL" := by
  cases pto, member using protos_cases with
  | eval => rfl
  | _ => cases script

/-- The names of the table are in upper case. -/
theorem protos_upper {pto : FkProto} (member : pto ∈ protos fkCmdEval) :
    fkStr2upper pto.name = pto.name := by
  have upper : ∀ name ∈ (protos fkCmdEval).map FkProto.name, fkStr2upper name = name := by
    rw [protos_names]
    decide
  exact upper pto.name (List.mem_map.mpr ⟨pto, member, rfl⟩)

end Table

/-- The two checks of the number of arguments. -/
def FkProto.accepts (pto : FkProto) (argCnt : Nat) : Bool :=
  !(pto.argCnt < 0 && (argCnt : Int) < -pto.argCnt) && !(0 ≤ pto.argCnt && pto.argCnt ≠ argCnt)

/-- What the calls of `fk_blog_append` have written; `beyond` is the memory behind `blog_buf`. -/
def FkSvr.blogFile (beyond : Nat → UInt8) (svr : FkSvr) : Bytes :=
  (svr.blog.map (fkBlogAppend beyond)).flatten

/-- `fk_blog_append` of the arguments, when the log is on and the client is a real one. -/
def blogAppend (pto : FkProto) (args : List Bytes) : Act Work Unit :=
  Act.modify fun work =>
    if work.svr.blogOn ∧ pto.type ≠ .read ∧ work.out.type = .real then
      { work with svr := { work.svr with blog := work.svr.blog ++ [args] } }
    else work

/-- `fk_conn_proc_cmd` on complete arguments; the name is turned to upper case in place. -/
def procArgs (fkCmdEval : Handler) (args : List Bytes) : Act Work Unit :=
  match args with
  | [] => Act.fault
  | first :: rest =>
      let name := fkStr2upper first
      match fkProtoSearch fkCmdEval name with
      | none => fkConnAddErrorRsp (ascii "Invalid Protocol")
      | some pto =>
          if pto.accepts args.length then do
            pto.handler (name :: rest)
            blogAppend pto (name :: rest)
          else fkConnAddErrorRsp (ascii "Wrong Argument Number")

/-- Either the command is rejected with an error reply, or its handler runs and the command
is appended to the log. -/
theorem procArgs_cases (fkCmdEval : Handler) (first : Bytes) (rest : List Bytes) :
    (∃ text len, procArgs fkCmdEval (first :: rest) = addRsp text len) ∨
      ∃ pto ∈ protos fkCmdEval, pto.name = fkStr2upper first ∧
        pto.accepts (rest.length + 1) = true ∧ procArgs fkCmdEval (first :: rest) =
          (pto.handler (pto.name :: rest) >>= fun _ => blogAppend pto (pto.name :: rest)) := by
  unfold procArgs
  dsimp only
  cases found : fkProtoSearch fkCmdEval (fkStr2upper first) with
  | none => exact .inl ⟨_, _, rfl⟩
  | some pto =>
      obtain ⟨member, known⟩ := (fkProtoSearch_eq_some fkCmdEval).mp found
      dsimp only
      rw [← known, List.length_cons]
      split
      · next counted => exact .inr ⟨pto, member, rfl, counted, rfl⟩
      · exact .inl ⟨_, _, rfl⟩

/-- The code that is returned, with the state; nothing for a crash. -/
def returned : Outcome Work Unit → Option (FkRt × Work)
  | .ok _ work => some (.ok, work)
  | .err work => some (.err, work)
  | .fault => none

/-- A parsed request has no empty slot; one would be a null item for the handlers. -/
def fkConnProcCmd (fkCmdEval : Handler) : Proc Work := fun work slots =>
  match slots.mapM id with
  | none => none
  | some args => returned (procArgs fkCmdEval args work)

theorem mapM_some (args : List Bytes) : (args.map some).mapM id = some args := by
  induction args with
  | nil => rfl
  | cons arg rest ih => simp [ih]

theorem fkConnProcCmd_args (fkCmdEval : Handler) (work : Work) (args : List Bytes) :
    fkConnProcCmd fkCmdEval work (args.map some) = returned (procArgs fkCmdEval args work) := by
  rw [fkConnProcCmd, mapM_some]

end Freekick
