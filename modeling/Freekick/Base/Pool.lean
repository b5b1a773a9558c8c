import Freekick.Base.Util
import Freekick.Lib.Memory
import Freekick.Lib.Nodes

/-!
# The memory pool: `fk_pool.c`

A block is a header and units of one size behind it.  The free units of a block make a
chain: each holds the index of the next one in its first two bytes.
-/

namespace Freekick

open Lib.Memory Lib.Nodes

/-- `fk_block_t` at an address; the blocks of a pool are a list. -/
structure FkBlock where
  base : Nat
  first : Nat
  freeCnt : Nat
  unitCnt : Nat
  unitSize : Nat
  deriving DecidableEq, Repr

structure FkPool where
  blocks : List FkBlock
  unitSize : Nat
  initCnt : Nat
  emptyBlks : Nat
  deriving DecidableEq, Repr

/-- The pool and the memory that its blocks lie in. -/
structure PoolState where
  pool : FkPool
  mem : Mem

def fkPoolMaxEmptyBlocks : Nat := 1

def fkPoolAlign : Nat := 2

/-- `sizeof(fk_block_t)`. -/
def fkBlockHeader : Nat := 16

/-- The index that ends a chain, `(uint16_t)-1`. -/
def lastIndex : Nat := 2 ^ 16 - 1

namespace FkBlock

variable (blk : FkBlock)

def data : Nat := blk.base + fkBlockHeader

/-- The address of a unit. -/
def unit (i : Nat) : Nat := blk.data + blk.unitSize * i

/-- The end of the data. -/
def stop : Nat := blk.data + blk.unitSize * blk.unitCnt

def isFull : Bool := blk.freeCnt == 0

def isEmpty : Bool := blk.freeCnt == blk.unitCnt

/-- `fk_pool_block_nocontain`, which lets the end of the data pass. -/
def nocontain (ptr : Nat) : Bool := decide (ptr < blk.data) || decide (blk.stop < ptr)

end FkBlock

/-- `fk_pool_block_alloc`. -/
def fkPoolBlockAlloc (mem : Mem) (blk : FkBlock) : Nat × FkBlock :=
  (blk.unit blk.first,
    { blk with freeCnt := blk.freeCnt - 1, first := loadWord mem (blk.unit blk.first) 2 })

/-- `fk_pool_block_free`. -/
def fkPoolBlockFree (mem : Mem) (blk : FkBlock) (ptr : Nat) : Mem × FkBlock :=
  (storeWord mem ptr 2 blk.first,
    { blk with
      freeCnt := (blk.freeCnt + 1) % 2 ^ 16
      first := (ptr - blk.data) / blk.unitSize % 2 ^ 16 })

/-- `fk_pool_align_cal`, with the complement as a mask of 32 bits. -/
def fkPoolAlignCal (unitSize : Nat) : Nat :=
  (unitSize + fkPoolAlign - 1) &&& (2 ^ 32 - 1 - (fkPoolAlign - 1))

/-- The unit size that `fk_pool_create` gives a pool. -/
def poolUnitSize (unitSize : UInt16) : Nat :=
  if unitSize.toNat > 4 then fkPoolAlignCal unitSize.toNat % 2 ^ 16
  else if unitSize.toNat ≤ 2 then 2
  else 4

def fkPoolCreate (unitSize initCnt : UInt16) : FkPool :=
  ⟨[], poolUnitSize unitSize, initCnt.toNat, 0⟩

/-- The bytes that `fk_block_create` asks for: an `int` product, converted to `size_t`. -/
def blockRequest (unitSize unitCnt : Nat) : Nat :=
  (fkBlockHeader + (toInt32 (unitSize * unitCnt : Nat) % 2 ^ 64).toNat) % 2 ^ 64

/-- The loop of `fk_block_create`, with the units that are left. -/
def linkUnits (unitSize : Nat) : Nat → Nat → Nat → Mem → Mem
  | 0, _, ptr, mem => storeWord mem ptr 2 lastIndex
  | left + 1, i, ptr, mem =>
      linkUnits unitSize left (i + 1) (ptr + unitSize) (storeWord mem ptr 2 (i + 1))

/-- A block in memory from the allocator.  `none`: its last index does not fit into it. -/
def fkBlockCreate (mem : Mem) (base unitSize unitCnt : Nat) : Option (Mem × FkBlock) :=
  let blk : FkBlock := ⟨base, 0, unitCnt, unitCnt, unitSize⟩
  if blk.unit (unitCnt - 1) + 2 ≤ blk.stop then
    some (linkUnits unitSize (unitCnt - 1) 0 blk.data mem, blk)
  else none

/-- The search through the blocks: those before the first that is looked for, and those behind
it. -/
def splitBlocks (wanted : FkBlock → Bool) :
    List FkBlock → Option (List FkBlock × FkBlock × List FkBlock)
  | [] => none
  | blk :: rest =>
      if wanted blk then some ([], blk, rest)
      else (splitBlocks wanted rest).map fun (front, found, back) => (blk :: front, found, back)

namespace PoolState

variable (state : PoolState)

def setBlocks (blocks : List FkBlock) : PoolState :=
  { state with pool := { state.pool with blocks := blocks } }

/-- The first block that is not full, between the other ones.  Without one a new block, in
memory that `malloc` gives, becomes the first; when `malloc` fails the process is aborted. -/
def usableBlock (answer : Option Nat) :
    Option (PoolState × List FkBlock × FkBlock × List FkBlock) :=
  match splitBlocks (fun blk => !blk.isFull) state.pool.blocks with
  | some parts => some (state, parts)
  | none =>
      answer.bind fun base =>
        (fkBlockCreate state.mem base state.pool.unitSize state.pool.initCnt).map fun (mem, blk) =>
          (({ state with mem := mem } : PoolState).setBlocks (blk :: state.pool.blocks), [], blk,
            state.pool.blocks)

def fkPoolMalloc (answer : Option Nat) : Option (Nat × PoolState) :=
  (state.usableBlock answer).map fun (state, front, blk, back) =>
    let (ptr, blk) := fkPoolBlockAlloc state.mem blk
    (ptr, state.setBlocks (front ++ blk :: back))

def fkPoolFree (ptr : Nat) : PoolState :=
  match splitBlocks (fun blk => !blk.nocontain ptr) state.pool.blocks with
  | none => state
  | some (front, blk, back) =>
      let (mem, blk) := fkPoolBlockFree state.mem blk ptr
      let state := { state with mem := mem }
      if blk.isEmpty then
        if state.pool.emptyBlks = fkPoolMaxEmptyBlocks then state.setBlocks (front ++ back)
        else
          let pool := { state.pool with emptyBlks := (state.pool.emptyBlks + 1) % 2 ^ 32 }
          ({ state with pool := pool } : PoolState).setBlocks (blk :: (front ++ back))
      else state.setBlocks (blk :: (front ++ back))

end PoolState

/-! ## Units and blocks -/

/-- The unit that an index leads to. -/
def linkIndex (index : Nat) : Option Nat := if index = lastIndex then none else some index

namespace FkBlock

/-- Memory of different blocks, headers included. -/
def Apart (blk other : FkBlock) : Prop := blk.stop ≤ other.base ∨ other.stop ≤ blk.base

/-- The free unit behind a free unit. -/
def nextFree (mem : Mem) (blk : FkBlock) (i : Nat) : Option Nat :=
  linkIndex (loadWord mem (blk.unit i) 2)

/-- The chain visits these units, and `free_cnt` is their number. -/
structure Chain (blk : FkBlock) (mem : Mem) (units : List Nat) : Prop where
  visits : Visits (blk.nextFree mem) (linkIndex blk.first) units
  nodup : units.Nodup
  cnt : blk.freeCnt = units.length

/-- The units in the chain are those that are not allocated. -/
structure Sound (blk : FkBlock) (mem : Mem) (allocated : Finset Nat) : Prop where
  unitSize : 2 ≤ blk.unitSize
  some : 1 ≤ blk.unitCnt
  few : blk.unitCnt < 2 ^ 16
  free : ∃ units, blk.Chain mem units ∧ ∀ i, i ∈ units ↔ i < blk.unitCnt ∧ blk.unit i ∉ allocated

variable {mem changed : Mem} {blk other : FkBlock} {allocated after : Finset Nat} {i j : Nat}

theorem linkIndex_eq_some {index : Nat} : linkIndex index = some i ↔ index = i ∧ i ≠ lastIndex := by
  unfold linkIndex
  split
  · next isLast =>
      refine iff_of_false nofun ?_
      rintro ⟨rfl, apart⟩
      exact apart isLast
  · next notLast =>
      rw [Option.some_inj]
      exact ⟨fun same => ⟨same, same ▸ notLast⟩, And.left⟩

theorem unit_succ (blk : FkBlock) (i : Nat) : blk.unit (i + 1) = blk.unit i + blk.unitSize := by
  rw [unit, unit, Nat.mul_succ, Nat.add_assoc]

theorem unit_le (blk : FkBlock) (le : i ≤ j) : blk.unit i ≤ blk.unit j := by
  have scaled := Nat.mul_le_mul_left blk.unitSize le
  rw [unit, unit]
  omega

theorem unit_lt (blk : FkBlock) (lt : i < j) : blk.unit i + blk.unitSize ≤ blk.unit j := by
  rw [← unit_succ]
  exact unit_le blk lt

/-- A unit lies in the data of its block. -/
theorem unit_inside (inner : i < blk.unitCnt) :
    blk.base + fkBlockHeader ≤ blk.unit i ∧ blk.unit i + blk.unitSize ≤ blk.stop :=
  ⟨Nat.le_add_right .., unit_lt blk inner⟩

theorem unit_inj (size : 2 ≤ blk.unitSize) (same : blk.unit i = blk.unit j) : i = j := by
  rcases Nat.lt_trichotomy i j with less | equal | greater
  · have apart := unit_lt blk less
    omega
  · exact equal
  · have apart := unit_lt blk greater
    omega

theorem units_apart (blk : FkBlock) (differ : i ≠ j) : blk.unit i + blk.unitSize ≤ blk.unit j ∨
    blk.unit j + blk.unitSize ≤ blk.unit i :=
  (Nat.lt_or_gt_of_ne differ).imp (unit_lt blk) (unit_lt blk)

theorem Apart.units (apart : blk.Apart other) (first : i < blk.unitCnt)
    (second : j < other.unitCnt) :
    blk.unit i + blk.unitSize ≤ other.unit j ∨ other.unit j + other.unitSize ≤ blk.unit i := by
  have here := unit_inside first
  have there := unit_inside second
  unfold Apart at apart
  omega

theorem Apart.nocontain (apart : blk.Apart other) (inner : i < other.unitCnt) :
    blk.nocontain (other.unit i) = true := by
  have inside := unit_inside inner
  have header : fkBlockHeader = 16 := rfl
  have start : blk.data = blk.base + fkBlockHeader := rfl
  unfold Apart at apart
  simp only [FkBlock.nocontain, Bool.or_eq_true, decide_eq_true_eq]
  omega

theorem contain (inner : i < blk.unitCnt) : blk.nocontain (blk.unit i) = false := by
  have inside := unit_inside inner
  have start : blk.data = blk.base + fkBlockHeader := rfl
  simp only [nocontain, Bool.or_eq_false_iff, decide_eq_false_iff_not]
  omega

/-- What is outside of the free units does not matter. -/
theorem Sound.congr (sound : blk.Sound mem allocated)
    (words : ∀ i, i < blk.unitCnt → blk.unit i ∉ allocated →
      loadWord changed (blk.unit i) 2 = loadWord mem (blk.unit i) 2)
    (same : ∀ i, i < blk.unitCnt → (blk.unit i ∈ after ↔ blk.unit i ∈ allocated)) :
    blk.Sound changed after := by
  obtain ⟨units, chain, free⟩ := sound.free
  refine ⟨sound.unitSize, sound.some, sound.few, units,
    ⟨chain.visits.congr fun i member => ?_, chain.nodup, chain.cnt⟩, fun i => ?_⟩
  · obtain ⟨inner, unused⟩ := (free i).mp member
    rw [nextFree, words i inner unused]
    rfl
  · rw [free]
    exact and_congr_right fun inner => not_congr (same i inner).symm

/-- The index of the first free unit is one of a unit, or the last one. -/
theorem Sound.first_lt (sound : blk.Sound mem allocated) : blk.first < 2 ^ 16 := by
  obtain ⟨units, chain, free⟩ := sound.free
  have few := sound.few
  have place := chain.visits.place_eq
  cases units with
  | nil =>
      have isLast : blk.first = lastIndex := by
        by_contra notLast
        rw [linkIndex, if_neg notLast] at place
        cases place
      rw [isLast]
      decide
  | cons i rest =>
      obtain ⟨same, _⟩ := linkIndex_eq_some.mp place
      have inner := ((free i).mp (List.mem_cons_self ..)).1
      omega

theorem Sound.freeCnt_eq (sound : blk.Sound mem allocated) :
    blk.freeCnt = ((List.range blk.unitCnt).filter fun i =>
      decide (blk.unit i ∉ allocated)).length := by
  obtain ⟨units, chain, free⟩ := sound.free
  rw [chain.cnt]
  refine List.Perm.length_eq
    ((List.perm_ext_iff_of_nodup chain.nodup (List.nodup_range.filter _)).mpr fun i => ?_)
  rw [free, List.mem_filter, List.mem_range, decide_eq_true_eq]

theorem Sound.isEmpty_iff (sound : blk.Sound mem allocated) : blk.isEmpty = true ↔
    ∀ i, i < blk.unitCnt → blk.unit i ∉ allocated := by
  have all := List.length_filter_eq_length_iff (p := fun i => decide (blk.unit i ∉ allocated))
    (l := List.range blk.unitCnt)
  rw [← sound.freeCnt_eq, List.length_range] at all
  simpa [isEmpty] using all

/-- A free unit of a block gets allocated. -/
theorem Sound.alloc (sound : blk.Sound mem allocated) (notFull : blk.isFull = false) :
    ∃ i, i < blk.unitCnt ∧ (fkPoolBlockAlloc mem blk).1 = blk.unit i ∧ blk.unit i ∉ allocated ∧
      (fkPoolBlockAlloc mem blk).2.Sound mem (insert (blk.unit i) allocated) := by
  obtain ⟨units, chain, free⟩ := sound.free
  have cnt := chain.cnt
  cases units with
  | nil =>
      rw [isFull, cnt] at notFull
      cases notFull
  | cons i rest =>
      obtain ⟨place, visits⟩ := chain.visits
      obtain ⟨isFirst, _⟩ := linkIndex_eq_some.mp place
      obtain ⟨inner, unused⟩ := (free i).mp (List.mem_cons_self ..)
      obtain ⟨absent, nodup⟩ := List.nodup_cons.mp chain.nodup
      have ptr : (fkPoolBlockAlloc mem blk).1 = blk.unit i := by rw [fkPoolBlockAlloc, isFirst]
      refine ⟨i, inner, ptr, unused, sound.unitSize, sound.some, sound.few, rest, ⟨?_, nodup, ?_⟩,
        fun j => ?_⟩
      · rw [← isFirst] at visits
        exact visits
      · have count : blk.freeCnt = rest.length + 1 := cnt
        rw [fkPoolBlockAlloc, count]
        rfl
      · have unit : (fkPoolBlockAlloc mem blk).2.unit j = blk.unit j := rfl
        rw [unit, Finset.mem_insert, not_or]
        constructor
        · intro member
          obtain ⟨inside, free⟩ := (free j).mp (List.mem_cons_of_mem _ member)
          refine ⟨inside, fun same => ?_, free⟩
          rw [unit_inj sound.unitSize same] at member
          exact absent member
        · rintro ⟨inside, differ, free'⟩
          refine (List.mem_cons.mp ((free j).mpr ⟨inside, free'⟩)).resolve_left ?_
          rintro rfl
          exact differ rfl

/-- An allocated unit of a block gets free. -/
theorem Sound.release (sound : blk.Sound mem allocated) (inner : i < blk.unitCnt)
    (used : blk.unit i ∈ allocated) :
    (fkPoolBlockFree mem blk (blk.unit i)).2.Sound (fkPoolBlockFree mem blk (blk.unit i)).1
    (allocated.erase (blk.unit i)) := by
  obtain ⟨units, chain, free⟩ := sound.free
  have few := sound.few
  have size := sound.unitSize
  have absent : i ∉ units := fun member => ((free i).mp member).2 used
  have nodup : (i :: units).Nodup := List.nodup_cons.mpr ⟨absent, chain.nodup⟩
  have inside : ∀ j ∈ i :: units, j < blk.unitCnt :=
    List.forall_mem_cons.mpr ⟨inner, fun j member => ((free j).mp member).1⟩
  have fewer : (i :: units).length ≤ blk.unitCnt := by
    have bounded := (nodup.subperm fun j member => List.mem_range.mpr (inside j member)).length_le
    rwa [List.length_range] at bounded
  have index : (fkPoolBlockFree mem blk (blk.unit i)).2.first = i := by
    have offset : blk.unit i - blk.data = blk.unitSize * i := Nat.add_sub_cancel_left ..
    change (blk.unit i - blk.data) / blk.unitSize % 2 ^ 16 = i
    rw [offset, Nat.mul_div_cancel_left i (by omega), Nat.mod_eq_of_lt (by omega)]
  refine ⟨size, sound.some, few, i :: units, ⟨⟨?_, ?_⟩, nodup, ?_⟩, fun j => ?_⟩
  · rw [index]
    refine linkIndex_eq_some.mpr ⟨rfl, ?_⟩
    have isLast : lastIndex = 65535 := rfl
    omega
  · have here : (fkPoolBlockFree mem blk (blk.unit i)).2.nextFree
        (fkPoolBlockFree mem blk (blk.unit i)).1 i = linkIndex blk.first :=
      congrArg linkIndex (loadWord_storeWord sound.first_lt)
    rw [here]
    refine chain.visits.congr fun j member => congrArg linkIndex (loadWord_storeWord_apart ?_)
    have differ : i ≠ j := fun same => absent (same ▸ member)
    have apart := blk.units_apart differ
    change _ ∨ blk.unit j + 2 ≤ _
    change blk.unit i + 2 ≤ blk.unit j ∨ _
    omega
  · have count : blk.freeCnt = units.length := chain.cnt
    rw [List.length_cons] at fewer ⊢
    change (blk.freeCnt + 1) % 2 ^ 16 = units.length + 1
    rw [count, Nat.mod_eq_of_lt (by omega)]
  · have unit : (fkPoolBlockFree mem blk (blk.unit i)).2.unit j = blk.unit j := rfl
    have unitCnt : (fkPoolBlockFree mem blk (blk.unit i)).2.unitCnt = blk.unitCnt := rfl
    rw [unit, unitCnt, List.mem_cons, Finset.mem_erase, free]
    by_cases same : j = i
    · subst same
      exact iff_of_true (.inl rfl) ⟨inner, fun both => both.1 rfl⟩
    · have differ : blk.unit j ≠ blk.unit i := fun equal => same (unit_inj size equal)
      simp [same, differ]

/-! ## New blocks -/

theorem linkUnits_outside {size left addr : Nat} {ptr : Nat}
    (outside : addr < ptr ∨ ptr + size * left + 2 ≤ addr) (wide : 2 ≤ size) :
    linkUnits size left i ptr mem addr = mem addr := by
  induction left generalizing i ptr mem with
  | zero => exact storeWord_outside (by omega)
  | succ left ih =>
      rw [Nat.mul_succ] at outside
      rw [linkUnits, ih (by omega)]
      exact storeWord_outside (by omega)

/-- The loop links every unit with the next one, and the last one with none. -/
theorem linkUnits_visits {left : Nat} (wide : 2 ≤ blk.unitSize) (fits : i + left < lastIndex) :
    Visits (blk.nextFree (linkUnits blk.unitSize left i (blk.unit i) mem)) (some i)
      (List.range' i (left + 1)) := by
  induction left generalizing i mem with
  | zero =>
      refine ⟨rfl, ?_⟩
      have stored : loadWord (storeWord mem (blk.unit i) 2 lastIndex) (blk.unit i) 2 = lastIndex :=
        loadWord_storeWord (by decide)
      change linkIndex (loadWord (storeWord mem (blk.unit i) 2 lastIndex) (blk.unit i) 2) = none
      rw [stored, linkIndex, if_pos rfl]
  | succ left ih =>
      have isLast : lastIndex = 65535 := rfl
      have fewer : i + 1 + left < lastIndex := by omega
      have next := @ih (storeWord mem (blk.unit i) 2 (i + 1)) (i + 1) fewer
      rw [unit_succ] at next
      refine ⟨rfl, ?_⟩
      have kept : loadWord (linkUnits blk.unitSize (left + 1) i (blk.unit i) mem)
          (blk.unit i) 2 = i + 1 := by
        have here : loadWord (storeWord mem (blk.unit i) 2 (i + 1)) (blk.unit i) 2 = i + 1 :=
          loadWord_storeWord (by omega)
        rw [linkUnits]
        exact (loadWord_congr fun addr least most => linkUnits_outside (.inl (by omega)) wide).trans
          here
      have place : blk.nextFree (linkUnits blk.unitSize (left + 1) i (blk.unit i) mem) i = some
          (i + 1) := by
        rw [nextFree, kept]
        exact linkIndex_eq_some.mpr ⟨rfl, by omega⟩
      rw [place]
      exact next

theorem create_eq {base size cnt : Nat}
    (created : fkBlockCreate mem base size cnt = Option.some (changed, blk)) :
    blk = ⟨base, 0, cnt, cnt, size⟩ := by
  unfold fkBlockCreate at created
  dsimp only at created
  split at created
  · cases created
    rfl
  · cases created

/-- A new block has all its units in the chain, and it changes no memory but its own. -/
theorem create_sound {base size cnt : Nat} (few : cnt < 2 ^ 16)
    (created : fkBlockCreate mem base size cnt = Option.some (changed, blk))
    (unused : ∀ i, i < blk.unitCnt → blk.unit i ∉ allocated) :
    blk.Sound changed allocated ∧ ∀ addr, addr < blk.data ∨ blk.stop ≤ addr →
      changed addr = mem addr := by
  have isLast : lastIndex = 65535 := rfl
  unfold fkBlockCreate at created
  dsimp only at created
  split at created
  · next fits =>
      cases created
      have wide : 2 ≤ size ∧ 1 ≤ cnt := by
        simp only [unit, stop] at fits
        rcases Nat.eq_zero_or_pos cnt with rfl | pos
        · omega
        · have last : size * cnt = size * (cnt - 1) + size := by
            rw [← Nat.mul_succ, Nat.succ_eq_add_one, Nat.sub_add_cancel pos]
          omega
      have whole : cnt - 1 + 1 = cnt := Nat.sub_add_cancel wide.2
      refine ⟨⟨wide.1, wide.2, few, List.range cnt, ⟨?_, List.nodup_range, List.length_range.symm⟩,
        fun i => ?_⟩, fun addr outside => ?_⟩
      · have fits : 0 + (cnt - 1) < lastIndex := by omega
        have visits := @linkUnits_visits mem ⟨base, 0, cnt, cnt, size⟩ 0 (cnt - 1) wide.1 fits
        rw [whole, ← List.range_eq_range'] at visits
        exact visits
      · rw [List.mem_range]
        exact ⟨fun inner => ⟨inner, unused i inner⟩, And.left⟩
      · refine linkUnits_outside ?_ wide.1
        simp only [unit] at fits
        omega
  · cases created

end FkBlock

/-- A request that is not too large is for the header and the units. -/
theorem blockRequest_eq {unitSize unitCnt : Nat} (size : unitSize < 2 ^ 16)
    (count : unitCnt < 2 ^ 16) (fits : blockRequest unitSize unitCnt < 2 ^ 63) :
    blockRequest unitSize unitCnt = fkBlockHeader + unitSize * unitCnt := by
  have most : unitSize * unitCnt ≤ 65535 * 65535 := Nat.mul_le_mul (by omega) (by omega)
  have header : fkBlockHeader = 16 := rfl
  unfold blockRequest at fits ⊢
  generalize unitSize * unitCnt = total at most fits ⊢
  have ways : (total < 2 ^ 31 ∧ toInt32 total = total) ∨
      (2 ^ 31 ≤ total ∧ toInt32 total = total - 2 ^ 32) := by
    rw [toInt32, Int.bmod_def]
    split <;> omega
  rcases ways with ⟨small, same⟩ | ⟨large, wrapped⟩
  · rw [same, header]
    omega
  · rw [wrapped, header] at fits
    omega

theorem fkPoolAlignCal_eq {unitSize : Nat} (small : unitSize < 2 ^ 16) :
    fkPoolAlignCal unitSize = (unitSize + 1) / 2 * 2 := by
  have half : fkPoolAlignCal unitSize / 2 = (unitSize + 1) / 2 := by
    have mask : (2 ^ 32 - 1 - (fkPoolAlign - 1)) / 2 = 2 ^ 31 - 1 := rfl
    rw [fkPoolAlignCal, Nat.and_div_two, mask, Nat.and_two_pow_sub_one_eq_mod]
    exact Nat.mod_eq_of_lt (by rw [fkPoolAlign]; omega)
  have even : fkPoolAlignCal unitSize % 2 = 0 := by
    have mask : (2 ^ 32 - 1 - (fkPoolAlign - 1)) % 2 = 0 := rfl
    have parity := Nat.and_mod_two_pow (a := unitSize + fkPoolAlign - 1)
      (b := 2 ^ 32 - 1 - (fkPoolAlign - 1)) (n := 1)
    rw [Nat.pow_one, mask, Nat.and_zero] at parity
    exact parity
  omega

theorem poolUnitSize_bounds (unitSize : UInt16) :
    poolUnitSize unitSize < 2 ^ 16 ∧ (unitSize.toNat < 2 ^ 16 - 1 → 2 ≤ poolUnitSize unitSize) := by
  have small := unitSize.toNat_lt
  unfold poolUnitSize
  split
  · rw [fkPoolAlignCal_eq small]
    omega
  · split <;> omega

end Freekick
