import Freekick.Event.Backends

/-!
# When `select` and `epoll` agree

The state of both is the same as long as all calls are plain, and a call that is not plain
leaves them different.
-/

namespace Freekick

open Lib

namespace Backends

/-! ## The largest descriptor -/

section Largest

variable {registered : IoRegistered} {maxFd : Int} {fd : Nat} {kinds : IoKind → Bool}

theorem Largest.attains (largest : Largest registered maxFd) (isFd : maxFd = fd) :
    registered fd ≠ fun _ => false := by
  rcases largest.attained with none | ⟨other, same, some⟩
  · omega
  · obtain rfl : other = fd := by omega
    exact some

theorem Largest.add (largest : Largest registered maxFd) (some : kinds ≠ fun _ => false) :
    Largest (Function.update registered fd kinds) (max (fd : Int) maxFd) := by
  constructor
  · intro other present
    by_cases same : other = fd
    · subst same
      exact le_max_left _ _
    · rw [Function.update_of_ne same] at present
      exact le_max_of_le_right (largest.bounds other present)
  · rcases largest.attained with none | ⟨other, isOther, present⟩
    · exact .inr ⟨fd, by omega, by simpa using some⟩
    · by_cases below : (fd : Int) < other
      · have apart : other ≠ fd := by omega
        exact .inr ⟨other, by omega, by simpa [apart] using present⟩
      · exact .inr ⟨fd, by omega, by simpa using some⟩

/-- The largest descriptor stays when another one changes, or when it keeps an event itself. -/
theorem Largest.keep (largest : Largest registered maxFd) (before : registered fd ≠ fun _ => false)
    (spared : (fd : Int) = maxFd → kinds ≠ fun _ => false) :
    Largest (Function.update registered fd kinds) maxFd := by
  constructor
  · intro other present
    by_cases same : other = fd
    · subst same
      exact largest.bounds other before
    · rw [Function.update_of_ne same] at present
      exact largest.bounds other present
  · rcases largest.attained with none | ⟨other, isOther, present⟩
    · exact .inl none
    · refine .inr ⟨other, isOther, ?_⟩
      by_cases same : other = fd
      · subst same
        simpa using spared isOther.symm
      · simpa [same] using present

theorem Largest.gone (isFd : maxFd = fd) :
    ¬Largest (Function.update registered fd fun _ => false) maxFd := by
  intro largest
  exact largest.attains isFd (by simp)

/-- After the largest descriptor has gone the search for marks is right when no descriptor without
events is the largest marked one. -/
theorem Largest.search_iff {fdMap : Nat → UInt8} (largest : Largest registered maxFd)
    (isFd : maxFd = fd) (marked : ∀ other, (registered other ≠ fun _ => false) → fdMap other = 1) :
    Largest (Function.update registered fd fun _ => false)
      (FkSelect.searchMaxFd (Function.update fdMap fd 0) (fd + 1)) ↔
      ∀ other < fd, fdMap other = 1 → (registered other = fun _ => false) →
        ∃ above < fd, other < above ∧ registered above ≠ fun _ => false := by
  obtain ⟨bounds, found⟩ := FkSelect.searchMaxFd_spec (Function.update fdMap fd 0) (fd + 1)
  have below : ∀ other < fd, fdMap other = 1 →
      (other : Int) ≤ FkSelect.searchMaxFd (Function.update fdMap fd 0) (fd + 1) := by
    intro other inside isMarked
    exact bounds other (by omega) (by rw [Function.update_of_ne (Nat.ne_of_lt inside), isMarked])
  have hit : FkSelect.searchMaxFd (Function.update fdMap fd 0) (fd + 1) = -1 ∨
      ∃ other < fd, FkSelect.searchMaxFd (Function.update fdMap fd 0) (fd + 1) = (other : Nat) ∧
        fdMap other = 1 := by
    rcases found with none | ⟨other, inside, isOther, isMarked⟩
    · exact .inl none
    · by_cases same : other = fd
      · subst same
        simp at isMarked
      · rw [Function.update_of_ne same] at isMarked
        exact .inr ⟨other, by omega, isOther, isMarked⟩
  constructor
  · intro right other inside isMarked absent
    have above := below other inside isMarked
    rcases right.attained with none | ⟨found, isFound, present⟩
    · omega
    · have apart : found ≠ fd := by
        rintro rfl
        simp at present
      rw [Function.update_of_ne apart] at present
      have bounded := largest.bounds found present
      have other_ne : found ≠ other := by
        rintro rfl
        exact present absent
      exact ⟨found, by omega, by omega, present⟩
  · intro reasons
    constructor
    · intro other present
      by_cases same : other = fd
      · subst same
        simp at present
      · rw [Function.update_of_ne same] at present
        have bounded := largest.bounds other present
        exact below other (by omega) (marked other present)
    · rcases hit with none | ⟨other, inside, isOther, isMarked⟩
      · exact .inl none
      · refine .inr ⟨other, isOther, ?_⟩
        rw [Function.update_of_ne (Nat.ne_of_lt inside)]
        intro absent
        obtain ⟨above, within, further, present⟩ := reasons other inside isMarked absent
        have bounded := below above within (marked above present)
        omega

end Largest

/-! ## One call -/

section Calls

variable {backends : Backends} {fd : Nat} {mask : IoMask} {call : MaskCall}

/-- Both answers are the same, an error changes nothing and the states still match. -/
def Mirrored (backends : Backends) (call : MaskCall) : Prop :=
  ∃ rt select epoll, backends.selectAnswer call = some (rt, select) ∧
    backends.epollAnswer call = some (rt, epoll) ∧
    (rt = .err → select = backends.select ∧ epoll = backends.epoll) ∧ Matched ⟨select, epoll⟩

theorem joined_ne_none (mask : IoMask) (kinds : IoKind → Bool) :
    mask.joined kinds ≠ fun _ => false := by
  intro none
  have entry := kernelEntry_joined mask kinds
  rw [none] at entry
  cases entry

theorem without_both (kinds : IoKind → Bool) : IoMask.both.without kinds = fun _ => false := by
  funext kind
  simp [IoMask.without, IoMask.has]

/-- Both sides give one descriptor the same events and leave the others. -/
theorem Matched.update (matched : backends.Matched) {select : FkSelect} {epoll : FkEpoll}
    {kinds : IoKind → Bool} (files : select.maxFiles = backends.select.maxFiles)
    (evs : epoll.maxEvs = backends.epoll.maxEvs)
    (registered : select.registered = Function.update backends.select.registered fd kinds)
    (emask : epoll.emask = Function.update backends.epoll.emask fd (ioevMask kinds))
    (kernel : epoll.kernel = Function.update backends.epoll.kernel fd (kernelEntry kinds))
    (others : ∀ other ≠ fd, select.fdMap other = backends.select.fdMap other)
    (marked : (kinds ≠ fun _ => false) → select.fdMap fd = 1)
    (largest : Largest select.registered select.maxFd) : Matched ⟨select, epoll⟩ := by
  constructor
  · rw [evs, files, matched.files]
  · intro other
    rw [emask, registered]
    by_cases same : other = fd
    · subst same
      simp
    · simp [same, matched.emask other]
  · intro other
    rw [kernel, registered]
    by_cases same : other = fd
    · subst same
      simp
    · simp [same, matched.kernel other]
  · intro other present
    rw [registered] at present
    by_cases same : other = fd
    · subst same
      rw [Function.update_self] at present
      exact marked present
    · rw [Function.update_of_ne same] at present
      exact (others other same).trans (matched.marked other present)
  · exact largest

theorem Matched.add (matched : backends.Matched) (inside : fd < backends.select.maxFiles)
    (plain : backends.Plain (.add fd mask)) : backends.Mirrored (.add fd mask) := by
  have within : fd < backends.epoll.maxEvs := matched.files ▸ inside
  by_cases taken : ∃ kind, mask.has kind = true ∧ backends.select.registered fd kind = true
  · obtain ⟨select, selects, changes⟩ := FkSelect.fkSelectAdd_err inside taken
    rw [if_neg (plain inside)] at changes
    subst changes
    exact ⟨.err, _, _, selects, FkEpoll.fkEpollAdd_err within (matched.emask fd) taken,
      fun _ => ⟨rfl, rfl⟩, matched⟩
  · have free : ∀ kind, mask.has kind = true → backends.select.registered fd kind = false := by
      intro kind has
      exact Bool.eq_false_iff.mpr fun already => taken ⟨kind, has, already⟩
    obtain ⟨select, selects, files, registered, maxFd, fdMap⟩ := FkSelect.fkSelectAdd_ok inside free
    obtain ⟨epoll, epolls, evs, emask, kernel⟩ :=
      FkEpoll.fkEpollAdd_ok within (matched.emask fd) (matched.kernel fd) free
    have some := joined_ne_none mask (backends.select.registered fd)
    refine ⟨.ok, select, epoll, selects, epolls, nofun,
      matched.update files evs registered emask kernel ?_ ?_ ?_⟩
    · intro other apart
      rw [fdMap, Function.update_of_ne apart]
    · intro _
      rw [fdMap, Function.update_self]
    · rw [registered, maxFd]
      exact matched.largest.add some

/-- The states after a removal of registered events match when `select` finds the largest
descriptor. -/
theorem Matched.after_remove (matched : backends.Matched) {select : FkSelect} {epoll : FkEpoll}
    (files : select.maxFiles = backends.select.maxFiles)
    (evs : epoll.maxEvs = backends.epoll.maxEvs) (registered : select.registered =
      Function.update backends.select.registered fd (mask.without (backends.select.registered fd)))
    (fdMap : select.fdMap = if mask = .both then Function.update backends.select.fdMap fd 0
      else backends.select.fdMap)
    (emask : epoll.emask = Function.update backends.epoll.emask fd
      (ioevMask (mask.without (backends.select.registered fd))))
    (kernel : epoll.kernel = Function.update backends.epoll.kernel fd
      (kernelEntry (mask.without (backends.select.registered fd))))
    (largest : Largest select.registered select.maxFd) : Matched ⟨select, epoll⟩ := by
  refine matched.update files evs registered emask kernel ?_ ?_ largest
  · intro other apart
    rw [fdMap]
    split
    · exact Function.update_of_ne apart ..
    · rfl
  · intro present
    have single : mask ≠ .both := by
      rintro rfl
      exact present (without_both _)
    rw [fdMap, if_neg single]
    refine matched.marked fd fun none => present ?_
    funext kind
    simp [IoMask.without, none]

theorem present_of_there (there : ∀ kind, mask.has kind = true →
    backends.select.registered fd kind = true) :
    backends.select.registered fd ≠ fun _ => false := by
  intro none
  have some := mask_some mask
  rcases Bool.or_eq_true_iff.mp some with has | has
  · simpa [none] using there _ has
  · simpa [none] using there _ has

/-- After a removal the largest descriptor is right unless a single event was its last, or marks
mislead the search. -/
theorem Matched.largest_iff (matched : backends.Matched) {select : FkSelect}
    (there : ∀ kind, mask.has kind = true → backends.select.registered fd kind = true)
    (registered : select.registered =
      Function.update backends.select.registered fd (mask.without (backends.select.registered fd)))
    (fdMap : select.fdMap = if mask = .both then Function.update backends.select.fdMap fd 0
      else backends.select.fdMap)
    (maxFd : select.maxFd = if (fd : Int) = backends.select.maxFd ∧ select.fdMap fd = 0 then
      FkSelect.searchMaxFd select.fdMap (fd + 1) else backends.select.maxFd) :
    Largest select.registered select.maxFd ↔
      (fd = backends.select.maxFd →
        (mask.without (backends.select.registered fd) = fun _ => false) →
        mask = .both ∧ ∀ other < fd, backends.select.fdMap other = 1 →
        (backends.select.registered other = fun _ => false) →
          ∃ above < fd, other < above ∧ backends.select.registered above ≠ fun _ => false) := by
  have before := present_of_there there
  have marked := matched.marked fd before
  rw [maxFd, fdMap, registered]
  by_cases both : mask = .both
  · subst both
    rw [if_pos rfl, without_both]
    by_cases isMax : (fd : Int) = backends.select.maxFd
    · rw [if_pos ⟨isMax, Function.update_self fd 0 backends.select.fdMap⟩,
        matched.largest.search_iff isMax.symm matched.marked]
      simp [isMax]
    · rw [if_neg fun reason => isMax reason.1]
      exact iff_of_true (matched.largest.keep before fun same => absurd same isMax) fun same =>
        absurd same isMax
  · rw [if_neg both, if_neg (by simp [marked])]
    constructor
    · intro largest isMax last
      rw [last] at largest
      exact absurd largest (Largest.gone isMax.symm)
    · intro spared
      exact matched.largest.keep before fun isMax last => both (spared isMax last).1

theorem Matched.remove (matched : backends.Matched) (inside : fd < backends.select.maxFiles)
    (plain : backends.Plain (.remove fd mask)) : backends.Mirrored (.remove fd mask) := by
  have within : fd < backends.epoll.maxEvs := matched.files ▸ inside
  obtain ⟨alike, spared⟩ := plain inside
  by_cases there : ∀ kind, mask.has kind = true → backends.select.registered fd kind = true
  · obtain ⟨select, selects, files, registered, fdMap, maxFd⟩ :=
      FkSelect.fkSelectRemove_ok inside there
    have meets : ∃ kind, mask.has kind = true ∧ backends.select.registered fd kind = true := by
      rcases Bool.or_eq_true_iff.mp (mask_some mask) with has | has
      · exact ⟨_, has, there _ has⟩
      · exact ⟨_, has, there _ has⟩
    obtain ⟨epoll, epolls, evs, emask, kernel⟩ :=
      FkEpoll.fkEpollRemove_ok within (matched.emask fd) (matched.kernel fd) meets
    exact ⟨.ok, select, epoll, selects, epolls, nofun,
      matched.after_remove files evs registered fdMap emask (kernel there)
      ((matched.largest_iff there registered fdMap maxFd).mpr spared)⟩
  · obtain ⟨kind, refuted⟩ := not_forall.mp there
    obtain ⟨has, absent⟩ := Classical.not_imp.mp refuted
    rw [Bool.not_eq_true] at absent
    obtain ⟨select, selects, unchanged⟩ := FkSelect.fkSelectRemove_err inside ⟨kind, has, absent⟩
    have missing : ∀ other, mask.has other = true →
        backends.select.registered fd other = false := by
      intro other wants
      cases mask with
      | one single =>
          obtain rfl := eq_of_beq has
          obtain rfl := eq_of_beq wants
          exact absent
      | both =>
          have same := alike rfl
          cases kind <;> cases other <;> simp_all [FkSelect.registered]
    have same : select = backends.select := by
      refine unchanged ?_
      rintro ⟨both, read, write⟩
      have equal := alike both
      simp [read, write] at equal
    subst same
    exact ⟨.err, _, _, selects, FkEpoll.fkEpollRemove_err within (matched.emask fd) missing,
      fun _ => ⟨rfl, rfl⟩, matched⟩

theorem Matched.mirrored (matched : backends.Matched) (inside : call.fd < backends.select.maxFiles)
    (plain : backends.Plain call) : backends.Mirrored call := by
  cases call with
  | add fd mask => exact matched.add inside plain
  | remove fd mask => exact matched.remove inside plain

theorem Mirrored.agree (mirrored : backends.Mirrored call) : backends.Agree call := by
  intro _
  obtain ⟨rt, select, epoll, selects, epolls, unchanged, matched⟩ := mirrored
  refine ⟨rt, select, epoll, selects, epolls, ?_, matched.emask, matched.largest⟩
  intro failed
  obtain ⟨rfl, rfl⟩ := unchanged failed
  exact ⟨rfl, rfl⟩

/-- The read event of a refused addition of both is there afterwards. -/
theorem plain_of_add (agree : backends.Agree (.add fd mask)) : backends.Plain (.add fd mask) := by
  rintro inside ⟨both, read, write⟩
  have taken : ∃ kind, mask.has kind = true ∧ backends.select.registered fd kind = true :=
    ⟨.write, by simp [both, IoMask.has], write⟩
  obtain ⟨select, selects, changes⟩ := FkSelect.fkSelectAdd_err inside taken
  rw [if_pos ⟨both, read, write⟩] at changes
  obtain ⟨rt, other, epoll, answered, _, unchanged, _⟩ := agree inside
  obtain ⟨rfl, rfl⟩ := Prod.mk.inj (Option.some.inj (selects.symm.trans answered))
  exact changes (unchanged rfl).1

theorem Matched.plain_of_remove (matched : backends.Matched)
    (agree : backends.Agree (.remove fd mask)) :
    backends.Plain (.remove fd mask) := by
  intro inside
  have within : fd < backends.epoll.maxEvs := matched.files ▸ inside
  obtain ⟨rt, select, epoll, selects, epolls, _, _, largest⟩ := agree inside
  have alike : mask = .both → backends.select.savedRset fd = backends.select.savedWset fd := by
    rintro rfl
    by_contra apart
    -- one of both is registered: `epoll` succeeds and `select` does not
    have missing : ∃ kind, IoMask.both.has kind = true ∧
        backends.select.registered fd kind = false := by
      by_cases read : backends.select.savedRset fd = true
      · exact ⟨.write, rfl, by simpa [FkSelect.registered, read] using apart⟩
      · exact ⟨.read, rfl, by simpa [FkSelect.registered] using read⟩
    have meets : ∃ kind, IoMask.both.has kind = true ∧
        backends.select.registered fd kind = true := by
      by_cases read : backends.select.savedRset fd = true
      · exact ⟨.read, rfl, read⟩
      · exact ⟨.write, rfl, by simpa [FkSelect.registered, read] using apart⟩
    obtain ⟨_, refused, _⟩ := FkSelect.fkSelectRemove_err inside missing
    obtain ⟨_, taken, _⟩ := FkEpoll.fkEpollRemove_ok within (matched.emask fd)
      (matched.kernel fd) meets
    have failed := (Prod.mk.inj (Option.some.inj (selects.symm.trans refused))).1
    have succeeded := (Prod.mk.inj (Option.some.inj (epolls.symm.trans taken))).1
    cases failed.symm.trans succeeded
  refine ⟨alike, fun isMax last => ?_⟩
  have present := matched.largest.attains isMax.symm
  have there : ∀ kind, mask.has kind = true → backends.select.registered fd kind = true := by
    have covered : ∀ kind, backends.select.registered fd kind = true → mask.has kind = true := by
      intro kind holds
      have cleared := congrFun last kind
      simpa [IoMask.without, holds] using cleared
    obtain ⟨kind, holds⟩ : ∃ kind, backends.select.registered fd kind = true := by
      by_contra none
      push Not at none
      exact present (funext fun kind => Bool.eq_false_iff.mpr (none kind))
    intro other wants
    cases mask with
    | one single =>
        obtain rfl := eq_of_beq (covered kind holds)
        obtain rfl := eq_of_beq wants
        exact holds
    | both =>
        have same := alike rfl
        cases kind <;> cases other <;> simp_all [FkSelect.registered]
  obtain ⟨next, answered, _, registered, fdMap, maxFd⟩ := FkSelect.fkSelectRemove_ok inside there
  obtain ⟨_, rfl⟩ := Prod.mk.inj (Option.some.inj (selects.symm.trans answered))
  exact (matched.largest_iff there registered fdMap maxFd).mp largest isMax last

theorem Matched.agree_iff_plain (matched : backends.Matched) (call : MaskCall) :
    backends.Agree call ↔ backends.Plain call := by
  constructor
  · intro agree
    cases call with
    | add fd mask => exact plain_of_add agree
    | remove fd mask => exact matched.plain_of_remove agree
  · intro plain inside
    exact (matched.mirrored inside plain).agree inside

theorem Matched.inside_of_step {next : Backends} (stepped : backends.step call = some next) :
    call.fd < backends.select.maxFiles := by
  by_contra outside
  cases call with
  | add fd mask =>
      have refused : backends.selectAnswer (.add fd mask) = none := if_neg outside
      simp [step, refused] at stepped
  | remove fd mask =>
      have refused : backends.selectAnswer (.remove fd mask) = none := if_neg outside
      simp [step, refused] at stepped

theorem Matched.step (matched : backends.Matched) {next : Backends} (plain : backends.Plain call)
    (stepped : backends.step call = some next) : next.Matched := by
  obtain ⟨rt, select, epoll, selects, epolls, _, after⟩ :=
    matched.mirrored (Matched.inside_of_step stepped) plain
  simp only [Backends.step, selects, epolls, Option.bind_eq_bind, Option.bind_some,
    Option.some_inj] at stepped
  subst stepped
  exact after

theorem Matched.create {maxFiles : Nat} (created : backendsCreate maxFiles = some backends) :
    backends.Matched := by
  obtain ⟨select, built, rfl⟩ := Option.map_eq_some_iff.mp created
  simp only [fkSelectCreate, Option.ite_none_left_eq_some, Option.some_inj] at built
  obtain ⟨_, rfl⟩ := built
  have empty : ∀ fd, FkSelect.registered ⟨maxFiles, fun _ => false, fun _ => false, -1, fun _ => 0⟩
      fd = fun _ => false :=
    fun fd => ioKinds_ext rfl rfl
  constructor
  · rfl
  · intro fd
    rw [empty]
    rfl
  · intro fd
    rw [empty]
    rfl
  · exact fun fd some => absurd (empty fd) some
  · exact ⟨fun fd some => absurd (empty fd) some, .inl rfl⟩

end Calls

/-- The backends agree on every call of a run exactly when every call is plain. -/
theorem run_agree_iff {maxFiles : Nat} {backends : Backends}
    (created : backendsCreate maxFiles = some backends)
    (calls : List MaskCall) : Steps.Throughout step Agree backends calls ↔
      Steps.Throughout step Plain backends calls :=
  @Steps.throughout_iff Backends MaskCall step Agree backends calls Matched Plain
    (fun _ call matched => matched.agree_iff_plain call)
      (fun _ _ _ matched plain stepped => matched.step plain stepped) (.create created)

theorem run_agree_iff_create : ∃ backends, backendsCreate 8 = some backends ∧
    (Steps.Throughout step Agree backends
      [.add 3 (.one .read), .add 4 .both, .remove 3 (.one .read)] ↔
      Steps.Throughout step Plain backends
        [.add 3 (.one .read), .add 4 .both, .remove 3 (.one .read)]) :=
  ⟨_, rfl, @run_agree_iff 8 _ rfl _⟩

/-- The largest descriptor of `select` stays after its only event was removed. -/
theorem run_keeps_maxFd : ∃ backends, backendsCreate 8 = some backends ∧
    ¬Steps.Throughout step Agree backends [.add 3 (.one .read), .remove 3 (.one .read)] := by
  refine ⟨_, rfl, fun along => ?_⟩
  obtain ⟨_, onRemoval⟩ := along
  obtain ⟨agree, _⟩ := onRemoval _ rfl
  obtain ⟨rt, select, epoll, selects, _, _, _, largest⟩ := agree (by decide)
  cases selects
  rcases largest.attained with none | ⟨fd, isFd, present⟩
  · cases none
  · obtain rfl : fd = 3 := by
      have same : ((3 : Nat) : Int) = fd := isFd
      omega
    exact present (ioKinds_ext rfl rfl)

end Backends

end Freekick
