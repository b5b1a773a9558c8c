import Freekick.Kdb.Dump

/-!
# The format of a dump

The text of an element, of a dictionary and of a whole dump.  Dumping writes this
text exactly when no key and no field is empty, and restoring reads it back: each
read takes its own text and leaves what follows.
-/

namespace Freekick

open Lib.Call Lib.Little Lib.KeyedMap

/-! ## Texts -/

def strText (bytes : Bytes) : Bytes := encode 8 bytes.length ++ bytes

def pairText (selt : Bytes × Bytes) : Bytes := strText selt.1 ++ strText selt.2

/-- A skip list has no text. -/
def itemText : FkItem → Bytes
  | .str bytes => strText bytes
  | .list nodes => encode 8 nodes.length ++ nodes.flatMap strText
  | .dict fields => encode 8 fields.used ++ fields.elements.flatMap pairText
  | .sklist => []
  | .num number => encode 8 8 ++ encodeNum number

def eltText (elt : Bytes × FkItem) : Bytes :=
  encode 4 elt.2.type ++ (strText elt.1 ++ itemText elt.2)

def dictText (isexp : Bool) (idx : Nat) (dct : FkDb) : Bytes :=
  encode 4 idx ++ (encode 4 isexp.toNat ++ (encode 8 dct.used ++ dct.elements.flatMap eltText))

/-- The dictionaries in the order of `fk_kdb_save`. -/
def blocks (dbcnt : Nat) : List (Bool × Nat) :=
  (List.range dbcnt).flatMap fun idx => [(false, idx), (true, idx)]

def blockText (svr : FkSvr) (block : Bool × Nat) : Bytes :=
  dictText block.1 block.2 (svr.dict block.1 block.2)

/-! ## Dumping -/

/-- The call writes the text when the condition holds and gives up when it does not. -/
structure Dumps (act : Act Bytes Unit) (condition : Prop) (text : Bytes) : Prop where
  writes : condition → ∀ file, act file = .ok () (file ++ text)
  gives_up : ¬ condition → ∀ file, ∃ after, act file = .err after

namespace Dumps

variable {first second : Act Bytes Unit} {condition further : Prop} {text more : Bytes}

theorem nothing : Dumps (pure ()) True [] where
  writes := by
    intro _ file
    rw [List.append_nil]
    rfl
  gives_up := by
    intro never
    exact (never trivial).elim

theorem congr {same : Bytes} (dumps : Dumps first condition text) (iff : further ↔ condition)
    (textEq : same = text) : Dumps first further same := by
  rw [propext iff, textEq]
  exact dumps

theorem andThen (head : Dumps first condition text) (tail : Dumps second further more) :
    Dumps (first >>= fun _ => second) (condition ∧ further) (text ++ more) where
  writes := by
    rintro ⟨holds, also⟩ file
    rw [Act.bind_ok (head.writes holds file), tail.writes also, List.append_assoc]
  gives_up := by
    intro fails file
    by_cases holds : condition
    · obtain ⟨after, gaveUp⟩ := tail.gives_up (fun also => fails ⟨holds, also⟩) (file ++ text)
      exact ⟨after, (Act.bind_ok (head.writes holds file)).trans gaveUp⟩
    · obtain ⟨after, gaveUp⟩ := head.gives_up holds file
      exact ⟨after, Act.bind_err gaveUp⟩

/-- Without a condition on the first call. -/
theorem after (head : Dumps first True text) (tail : Dumps second further more) :
    Dumps (first >>= fun _ => second) further (text ++ more) :=
  (head.andThen tail).congr (iff_of_eq (true_and further)).symm rfl

/-- Without a condition on the second call. -/
theorem before (head : Dumps first condition text) (tail : Dumps second True more) :
    Dumps (first >>= fun _ => second) condition (text ++ more) :=
  (head.andThen tail).congr (iff_of_eq (and_true condition)).symm rfl

theorem forEach {A : Type} {body : A → Act Bytes Unit} {holds : A → Prop} {texts : A → Bytes}
    (items : List A) (each : ∀ item ∈ items, Dumps (body item) (holds item) (texts item)) :
    Dumps (Act.forEach body items) (∀ item ∈ items, holds item) (items.flatMap texts) := by
  induction items with
  | nil => exact nothing.congr (iff_true_intro fun _ member => nomatch member) rfl
  | cons item rest ih =>
      have here := each item (List.mem_cons_self ..)
      have later := ih fun other member => each other (List.mem_cons_of_mem _ member)
      exact (here.andThen later).congr List.forall_mem_cons List.flatMap_cons

end Dumps

theorem fwriteAll_dumps (bytes : Bytes) : Dumps (fwriteAll bytes) (bytes ≠ []) bytes where
  writes := by
    intro nonempty file
    have positive : bytes.length ≠ 0 := fun zero => nonempty (List.length_eq_zero_iff.mp zero)
    have called : fwrite bytes file = .ok 1 (file ++ bytes) := by rw [fwrite, if_neg positive]
    rw [fwriteAll, writeAllOn, Act.bind_ok called]
    rfl
  gives_up := by
    intro empty file
    have zero : bytes.length = 0 := List.length_eq_zero_iff.mpr (Classical.not_not.mp empty)
    have called : fwrite bytes file = .ok 0 (file ++ bytes) := by rw [fwrite, if_pos zero]
    exact ⟨file ++ bytes, Act.bind_ok called⟩

/-- A number always has bytes. -/
theorem fwriteWord_dumps (width number : Nat) :
    Dumps (fwriteAll (encode (width + 1) number)) True (encode (width + 1) number) :=
  (fwriteAll_dumps _).congr (iff_of_true trivial (List.cons_ne_nil _ _)) rfl

theorem dumpSize_dumps (len : Nat) : Dumps (dumpSize len) True (encode 8 len) :=
  fwriteWord_dumps 7 len

theorem dumpKey_dumps (key : Bytes) : Dumps (dumpKey key) (key ≠ []) (strText key) :=
  (dumpSize_dumps key.length).after (fwriteAll_dumps key)

theorem dumpValue_dumps (value : Bytes) : Dumps (dumpValue value) True (strText value) := by
  have body : Dumps (do
      let wz ← fwrite value
      if 0 < value.length ∧ wz = 0 then Act.fail else pure ()) True value := by
    refine ⟨?_, fun never => (never trivial).elim⟩
    intro _ file
    have called : fwrite value file = .ok (if value.length = 0 then 0 else 1) (file ++ value) := rfl
    rw [Act.bind_ok called, if_neg]
    · rfl
    · rintro ⟨positive, zero⟩
      rw [if_neg (Nat.pos_iff_ne_zero.mp positive)] at zero
      cases zero
  exact (dumpSize_dumps value.length).after body

theorem fkKdbDumpStrElt_dumps (key value : Bytes) :
    Dumps (fkKdbDumpStrElt key value) (key ≠ []) (strText key ++ strText value) :=
  (dumpKey_dumps key).before (dumpValue_dumps value)

theorem fkKdbDumpNumElt_dumps (key : Bytes) (number : Int) :
    Dumps (fkKdbDumpNumElt key number) (key ≠ []) (strText key ++ itemText (.num number)) :=
  (dumpKey_dumps key).before ((dumpSize_dumps 8).after (fwriteWord_dumps 7 _))

theorem fkKdbDumpListElt_dumps (key : Bytes) (nodes : List Bytes) :
    Dumps (fkKdbDumpListElt key nodes) (key ≠ []) (strText key ++ itemText (.list nodes)) := by
  have each : Dumps (Act.forEach dumpValue nodes) True (nodes.flatMap strText) :=
    (Dumps.forEach nodes fun node _ => dumpValue_dumps node).congr
      (iff_of_true trivial fun _ _ => trivial) rfl
  exact (dumpKey_dumps key).before ((dumpSize_dumps nodes.length).after each)

/-- No field of a hash is empty. -/
def FkItem.Named : FkItem → Prop
  | .dict fields => ∀ selt ∈ fields.elements, selt.1 ≠ []
  | _ => True

theorem fkKdbDumpDictElt_dumps (key : Bytes) {fields : FkDict Bytes Bytes}
    (wf : fields.Wf dbDictEop) :
    Dumps (fkKdbDumpDictElt key fields) (key ≠ [] ∧ (FkItem.dict fields).Named)
      (strText key ++ itemText (.dict fields)) := by
  have each := Dumps.forEach fields.elements fun selt _ => fkKdbDumpStrElt_dumps selt.1 selt.2
  rw [← fkDictVisits_eq wf] at each
  have whole := (dumpKey_dumps key).andThen ((dumpSize_dumps (fkDictLen fields)).after each)
  rw [fkDictVisits_eq wf] at whole
  rw [fkKdbDumpDictElt, fkKdbDumpDictEltOn, fkDictVisits_eq wf]
  exact whole

/-- An item of the four kinds that the format has a case for, with strings that are not
longer than an argument can be. -/
def FkItem.Stored : FkItem → Prop
  | .str bytes => bytes.length ≤ fkArgHighwat
  | .list nodes => ∀ node ∈ nodes, node.length ≤ fkArgHighwat
  | .dict fields => fields.Wf dbDictEop ∧
      ∀ selt ∈ fields.elements, selt.1.length ≤ fkArgHighwat ∧ selt.2.length ≤ fkArgHighwat
  | .sklist => False
  | .num number => -2 ^ 63 ≤ number ∧ number < 2 ^ 63

/-- Neither the key nor a field is empty. -/
def EltNamed (elt : Bytes × FkItem) : Prop := elt.1 ≠ [] ∧ elt.2.Named

theorem dumpElts_dumps (rt : FkRt) (elts : List (Bytes × FkItem))
    (stored : ∀ elt ∈ elts, elt.2.Stored) :
    Dumps (dumpElts rt elts) (∀ elt ∈ elts, EltNamed elt) (elts.flatMap eltText) := by
  induction elts generalizing rt with
  | nil => exact Dumps.nothing.congr (iff_true_intro fun _ member => nomatch member) rfl
  | cons elt rest ih =>
      obtain ⟨key, value⟩ := elt
      have here := stored (key, value) (List.mem_cons_self ..)
      have later := ih .ok fun other member => stored other (List.mem_cons_of_mem _ member)
      -- the type is written first, then the case of the switch, then the other elements
      have element : ∀ {act : Act Bytes Unit},
          Dumps act (EltNamed (key, value)) (strText key ++ itemText value) →
          Dumps (fwriteAll (encode 4 value.type) >>= fun _ => act >>= fun _ => dumpElts .ok rest)
            (∀ elt ∈ (key, value) :: rest, EltNamed elt)
            (((key, value) :: rest).flatMap eltText) := by
        intro act dumps
        refine ((fwriteWord_dumps 3 value.type).after (dumps.andThen later)).congr
          List.forall_mem_cons ?_
        rw [List.flatMap_cons, eltText, List.append_assoc, List.append_assoc]
      have unnamed : ∀ {act : Act Bytes Unit}, value.Named →
          Dumps act (key ≠ []) (strText key ++ itemText value) →
          Dumps act (EltNamed (key, value)) (strText key ++ itemText value) :=
        fun named dumps => dumps.congr ⟨And.left, fun nonempty => ⟨nonempty, named⟩⟩ rfl
      cases value with
      | str bytes => exact element (unnamed trivial (fkKdbDumpStrElt_dumps key bytes))
      | list nodes => exact element (unnamed trivial (fkKdbDumpListElt_dumps key nodes))
      | dict fields => exact element (fkKdbDumpDictElt_dumps key here.1)
      | sklist => exact here.elim
      | num number => exact element (unnamed trivial (fkKdbDumpNumElt_dumps key number))

structure DictStored (dct : FkDb) : Prop where
  wf : dct.Wf dbDictEop
  keys : ∀ elt ∈ dct.elements, elt.1.length ≤ fkArgHighwat
  items : ∀ elt ∈ dct.elements, elt.2.Stored

def DictNamed (dct : FkDb) : Prop := ∀ elt ∈ dct.elements, EltNamed elt

theorem fkKdbDump_dumps (rt : FkRt) (svr : FkSvr) (isexp : Bool) (idx : Nat)
    (stored : DictStored (svr.dict isexp idx)) :
    Dumps (fkKdbDump rt svr isexp idx) (DictNamed (svr.dict isexp idx))
      (blockText svr (isexp, idx)) := by
  have body := dumpElts_dumps rt _ stored.items
  rw [fkKdbDump, fkKdbDumpOn, fkDictVisits_eq stored.wf]
  exact (fwriteWord_dumps 3 idx).after
    ((fwriteWord_dumps 3 isexp.toNat).after ((dumpSize_dumps _).after body))

theorem mem_blocks {dbcnt : Nat} {block : Bool × Nat} : block ∈ blocks dbcnt ↔ block.2 < dbcnt := by
  obtain ⟨isexp, idx⟩ := block
  cases isexp <;> simp [blocks]

/-- The dump of all databases. -/
theorem dumpDbs_dumps (rt : FkRt) (svr : FkSvr)
    (stored : ∀ block ∈ blocks svr.dbcnt, DictStored (svr.dict block.1 block.2)) :
    Dumps (dumpDbs rt svr) (∀ block ∈ blocks svr.dbcnt, DictNamed (svr.dict block.1 block.2))
      ((blocks svr.dbcnt).flatMap (blockText svr)) := by
  have each := Dumps.forEach (List.range svr.dbcnt) fun idx member => by
    have dump := fkKdbDump_dumps rt svr false idx
      (stored (false, idx) (mem_blocks.mpr (List.mem_range.mp member)))
    have dumpExp := fkKdbDump_dumps rt svr true idx
      (stored (true, idx) (mem_blocks.mpr (List.mem_range.mp member)))
    exact dump.andThen dumpExp
  refine each.congr ?_ ?_
  · constructor
    · intro named idx member
      have inside := List.mem_range.mp member
      exact ⟨named (false, idx) (mem_blocks.mpr inside), named (true, idx) (mem_blocks.mpr inside)⟩
    · rintro named ⟨isexp, idx⟩ member
      obtain ⟨plain, expiring⟩ := named idx (List.mem_range.mpr (mem_blocks.mp member))
      cases isexp
      · exact plain
      · exact expiring
  · rw [blocks, List.flatMap_assoc]
    simp only [List.flatMap_cons, List.flatMap_nil, List.append_nil]

/-! ## Restoring -/

/-- The call reads the text for the value and leaves the server as it is. -/
def Reads {A : Type} (act : Act FkLoad A) (text : Bytes) (value : A) : Prop :=
  ∀ svr rest, act ⟨svr, text ++ rest⟩ = .ok value ⟨svr, rest⟩

namespace Reads

variable {A B : Type} {act : Act FkLoad A} {next : A → Act FkLoad B} {text more : Bytes}
  {value : A} {result : B}

theorem pure (value : A) : Reads (Pure.pure value) [] value := fun _ _ => rfl

theorem andThen (head : Reads act text value) (tail : Reads (next value) more result) :
    Reads (act >>= next) (text ++ more) result := by
  intro svr rest
  rw [List.append_assoc, Act.bind_ok (head svr (more ++ rest))]
  exact tail svr rest

/-- A last step that reads nothing. -/
theorem last (head : Reads act text value) (tail : next value = Pure.pure result) :
    Reads (act >>= next) text result := by
  intro svr rest
  rw [Act.bind_ok (head svr rest), tail]
  rfl

theorem many {write : A → Bytes} (items : List A)
    (each : ∀ item ∈ items, Reads act (write item) item) :
    Reads (Act.times act items.length) (items.flatMap write) items := by
  induction items with
  | nil => exact pure []
  | cons item rest ih =>
      have here := each item (List.mem_cons_self ..)
      have later := ih fun other member => each other (List.mem_cons_of_mem _ member)
      rw [List.flatMap_cons]
      exact here.andThen (later.last rfl)

end Reads

theorem fread_reads {bytes : Bytes} (nonempty : bytes ≠ []) :
    Reads (fread bytes.length) bytes (some bytes) := by
  intro svr rest
  have positive : bytes.length ≠ 0 := fun zero => nonempty (List.length_eq_zero_iff.mp zero)
  have enough : ¬ (bytes ++ rest).length < bytes.length := by
    rw [List.length_append]
    omega
  rw [fread, if_neg positive, if_neg enough, List.take_left, List.drop_left]

theorem freadAll_reads {bytes : Bytes} (nonempty : bytes ≠ []) :
    Reads (freadAll bytes.length) bytes bytes :=
  (fread_reads nonempty).last rfl

theorem freadWord_reads (width number : Nat) :
    Reads (freadAll (width + 1)) (encode (width + 1) number) (encode (width + 1) number) := by
  have reads := freadAll_reads
    (List.cons_ne_nil (UInt8.ofNat (number % 256)) (encode width (number / 256)))
  change Reads (freadAll (encode (width + 1) number).length) _ _ at reads
  rwa [length_encode] at reads

theorem restoreSize_reads {len : Nat} (fits : len < 2 ^ 64) :
    Reads restoreSize (encode 8 len) len := by
  refine (freadWord_reads 7 len).last ?_
  rw [decode_encode fits]

theorem restoreLen_reads {len : Nat} (fits : len ≤ fkArgHighwat) :
    Reads restoreLen (encode 8 len) len := by
  have small : len < 2 ^ 64 := Nat.lt_of_le_of_lt fits (by decide)
  refine (restoreSize_reads small).last ?_
  rw [if_neg (Nat.not_lt.mpr fits)]

theorem restoreKey_reads {key : Bytes} (nonempty : key ≠ []) (fits : key.length ≤ fkArgHighwat) :
    Reads restoreKey (strText key) key :=
  (restoreLen_reads fits).andThen (freadAll_reads nonempty)

theorem restoreValue_reads {value : Bytes} (fits : value.length ≤ fkArgHighwat) :
    Reads restoreValue (strText value) value := by
  refine (restoreLen_reads fits).andThen ?_
  by_cases empty : value = []
  · subst empty
    exact fun svr rest => rfl
  · exact (fread_reads empty).last rfl

/-- The counts of a list and of a hash are of the type `size_t`. -/
def FkItem.Counted : FkItem → Prop
  | .list nodes => nodes.length < 2 ^ 64
  | .dict fields => fields.used < 2 ^ 64
  | _ => True

structure DictCounted (dct : FkDb) : Prop where
  used : dct.used < 2 ^ 64
  items : ∀ elt ∈ dct.elements, elt.2.Counted

theorem FkItem.type_le (item : FkItem) : item.type ≤ 5 := by
  cases item <;> exact Nat.le_of_ble_eq_true rfl

/-- Restoring builds every hash anew. -/
def rebuilt : FkItem → FkItem
  | .dict fields => .dict (fkDictOfElts fields.elements)
  | item => item

/-- The call reads the text and changes the server. -/
def Loads (act : Act FkLoad Unit) (text : Bytes) (change : FkSvr → FkSvr) : Prop :=
  ∀ svr rest, act ⟨svr, text ++ rest⟩ = .ok () ⟨change svr, rest⟩

theorem Reads.loads {A : Type} {act : Act FkLoad A} {next : A → Act FkLoad Unit} {text more : Bytes}
    {value : A} {change : FkSvr → FkSvr} (head : Reads act text value)
    (tail : Loads (next value) more change) : Loads (act >>= next) (text ++ more) change := by
  intro svr rest
  rw [List.append_assoc, Act.bind_ok (head svr (more ++ rest))]
  exact tail svr rest

theorem Reads.loads_last {A : Type} {act : Act FkLoad A} {next : A → Act FkLoad Unit} {text : Bytes}
    {value : A} {change : FkSvr → FkSvr} (head : Reads act text value)
    (tail : Loads (next value) [] change) : Loads (act >>= next) text change := by
  have both := head.loads tail
  rwa [List.append_nil] at both

/-- The server after one element was added. -/
def withElt (isexp : Bool) (idx : Nat) (svr : FkSvr) (key : Bytes) (value : FkItem) : FkSvr :=
  svr.setDict isexp idx (fkDictAdd dbDictEop (svr.dict isexp idx) key value).2

theorem restoreAdd_loads (isexp : Bool) (idx : Nat) (key : Bytes) (value : FkItem) :
    Loads (restoreAdd isexp idx key value) [] fun svr => withElt isexp idx svr key value :=
  fun _ _ => rfl

theorem decodeNum_encodeNum {number : Int} (low : -2 ^ 63 ≤ number) (high : number < 2 ^ 63) :
    decodeNum (encodeNum number) = number := by
  have small : (number % 2 ^ 64).toNat < 256 ^ 8 := by omega
  have word : decode (encodeNum number) = (number % 2 ^ 64).toNat := decode_encode small
  have positive : 0 ≤ number % 2 ^ 64 := by omega
  unfold decodeNum
  rw [word, Int.toNat_of_nonneg positive, Int.bmod_def]
  split <;> omega

theorem fkKdbRestoreNumElt_loads {isexp : Bool} {idx : Nat} {key : Bytes} {number : Int}
    (nonempty : key ≠ []) (keyFits : key.length ≤ fkArgHighwat)
    (stored : (FkItem.num number).Stored) :
    Loads (fkKdbRestoreNumElt isexp idx) (strText key ++ itemText (.num number))
      fun svr => withElt isexp idx svr key (.num number) := by
  have width : (encodeNum number).length = 8 := length_encode 8 _
  have word : encodeNum number ≠ [] := List.ne_nil_of_length_pos (by rw [width]; decide)
  have reads := fread_reads word
  rw [width] at reads
  refine (restoreKey_reads nonempty keyFits).loads
    ((restoreLen_reads (by decide)).loads (reads.loads_last ?_))
  rw [storeNumOn, if_pos rfl, decodeNum_encodeNum stored.1 stored.2]
  exact restoreAdd_loads isexp idx key _

theorem pair_reads {selt : Bytes × Bytes} (nonempty : selt.1 ≠ [])
    (fits : selt.1.length ≤ fkArgHighwat ∧ selt.2.length ≤ fkArgHighwat) :
    Reads restorePair (pairText selt) selt :=
  (restoreKey_reads nonempty fits.1).andThen ((restoreValue_reads fits.2).last rfl)

/-- An element is read back, its hash built anew. -/
theorem restoreElt_loads {isexp : Bool} {idx : Nat} {elt : Bytes × FkItem} (named : EltNamed elt)
    (keyFits : elt.1.length ≤ fkArgHighwat) (stored : elt.2.Stored) (counted : elt.2.Counted) :
    Loads (restoreElt isexp idx) (eltText elt) fun svr => withElt isexp idx svr elt.1
      (rebuilt elt.2) := by
  obtain ⟨key, value⟩ := elt
  obtain ⟨nonempty, named⟩ := named
  have tag : decode (encode 4 value.type) = value.type :=
    decode_encode (Nat.lt_of_le_of_lt value.type_le (by decide))
  refine (freadWord_reads 3 value.type).loads ?_
  rw [tag]
  have readKey := restoreKey_reads nonempty keyFits
  cases value with
  | str bytes =>
      exact readKey.loads ((restoreValue_reads stored).loads_last
        (restoreAdd_loads isexp idx key _))
  | list nodes =>
      have each := Reads.many nodes fun node member => restoreValue_reads (stored node member)
      exact readKey.loads ((restoreSize_reads counted).loads
        (each.loads_last (restoreAdd_loads isexp idx key _)))
  | dict fields =>
      obtain ⟨wf, fits⟩ := stored
      have each := Reads.many fields.elements fun selt member => pair_reads (named selt member)
        (fits selt member)
      rw [← wf.count] at each
      exact readKey.loads ((restoreSize_reads counted).loads
        (each.loads_last (restoreAdd_loads isexp idx key _)))
  | sklist => exact stored.elim
  | num number => exact fkKdbRestoreNumElt_loads nonempty keyFits stored

end Freekick
