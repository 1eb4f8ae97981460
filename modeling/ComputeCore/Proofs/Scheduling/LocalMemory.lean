import ComputeCore.Proofs.Scheduling.Carving
import ComputeCore.Proofs.Scheduling.Sites
/-!
# The local memory of a dispatch

A dispatch whose local memory fits the arena of its worker sets every group up with its local arguments at
their places, and one whose local memory does not fit takes its worker out of service before it has invoked
its kernel once. There is nothing between the two, and it makes no difference how the arena was left by what
ran before: `local_memory_settled`.
-/

namespace ComputeCore

/-- What a dispatch that fits the arena does about its local memory, at every turn of its life. -/
structure JobLife.CarvesAll (life : JobLife) (range : NDRange) : Prop where
  laidOut : range.LaidOut life.arena
  /-- No fault escapes the dispatch. -/
  unbroken : ∀ n, life.stage n ≠ .broken
  /-- Whenever a group is due, setting it up succeeds. -/
  enters : ∀ n arena dispatch, life.stage n = .going arena (.scheduling dispatch) →
    dispatch.group < dispatch.totalGroups →
    ∃ next arena', dispatch.enterGroup arena = .ok (next, arena')
  /-- Every invocation is shown the local memory of its group, which is where that of every other is. -/
  carved : ∀ n, ∀ call ∈ (life.trace n).calls, call.Carved range life.arena

/-- What a dispatch that does not fit the arena comes to. -/
structure JobLife.Overflows (life : JobLife) (range : NDRange) : Prop where
  uninvoked : ∀ n, (life.trace n).calls = []
  /-- After its arguments are looked up and its scheduler is made, its first group is not set up. -/
  broken : life.stage (range.args.length + 3) = .broken
  /-- Its worker fails it, and then everything else that was accepted, and is out of service. -/
  outOfService : ∀ site, Site.Reachable site → life.On (range.args.length + 2) site →
    ∃ broken, site.Breaks life.command broken ∧
      ∀ told later, broken.Run told later → broken.FailStop life.command told later

namespace JobLife

variable {life : JobLife} {range : NDRange}

/-- Local arguments are carved off the arena as they should be, or the dispatch never begins to invoke its
kernel. -/
theorem local_memory_settled (hkind : life.command.kind = .ndrange range) (hsized : range.Sized)
    (hresolving : ∀ n arena job, life.stage n = .going arena job → Resolving job (life.world n)) :
    (range.localSize ≤ life.arena.capacity → life.CarvesAll range) ∧
      (life.arena.capacity < range.localSize → life.Overflows range) := by
  refine ⟨fun hfits => ?_, fun hover => ?_⟩
  · have hsound := fun n => (life.run hresolving n).sound hkind (hsized.fits hfits)
    refine ⟨NDRange.laidOut hfits, fun n hbroken => ?_, fun n arena dispatch hstage hgroup => ?_,
      fun n => ((life.run hresolving n).carves hkind).2⟩
    · have := hsound n
      rwa [hbroken] at this
    · have hserving := hsound n
      rw [hstage] at hserving
      obtain ⟨past, hserves, -⟩ := hserving
      obtain ⟨args, arena', henter, -⟩ := Dispatch.enterGroup_ok hserves.fits hgroup
      exact ⟨_, arena', henter⟩
  · have hnot : ¬ range.Fits life.arena := fun hfits => Nat.not_lt.2 hfits.args_fit hover
    obtain ⟨dispatch, fault, -, -, hbroken⟩ := breaks_of_overflow hkind hsized hresolving hover
    refine ⟨fun n => ?_, hbroken, fun site hreachable hon => ?_⟩
    · rw [((life.run hresolving n).unopened hkind hsized.accepted hnot).2]
    · obtain ⟨broken, hbreaks⟩ := hon.breaks hreachable hbroken
      obtain ⟨hdoomed, haccepted⟩ := hbreaks.doomed hreachable
      exact ⟨broken, hbreaks, fun told later hrun => hdoomed.failStop haccepted hrun⟩

end JobLife

/-- Two groups that each want a byte of static storage, two bytes, and three bytes more. -/
def shelvedCommand : Command where
  id := ⟨0⟩
  kind := .ndrange
    { space := { axes := [{ globalSize := 2, localSize := 1, offset := 0 }] }
      kernel := { (default : Kernel) with staticLocal := 1 }
      args := [.localBytes 2, .value #[], .localBytes 3] }

/-- An arena with just the bytes they want, all of them used up by an earlier command. -/
def shelvedArena : LocalArena :=
  { base := ⟨1, 0⟩, capacity := 6, used := 6 }

/-- A dispatch that fits, and one that does not, on a worker which has come to set up its group. -/
theorem JobLife.local_memory_settled_shelved :
    (let life := alone shelvedCommand shelvedArena default;
      (life.trace 16).calls.map Call.moment = [⟨0, 0, 0⟩, ⟨1, 0, 0⟩] ∧ (∀ n, life.stage n ≠ .broken) ∧
        ∀ call ∈ (life.trace 16).calls, call.item.localArg? 2 = some ⟨⟨1, 3⟩, 3⟩) ∧
    (let life := alone Pool.greedyDispatch default Pool.smallArenas;
      (∀ n, (life.trace n).calls = []) ∧ ∃ site broken, Site.Reachable site ∧ life.On 3 site ∧
        site.Breaks Pool.greedyDispatch broken ∧
          ∀ told later, broken.Run told later → broken.FailStop Pool.greedyDispatch told later) := by
  constructor
  · obtain ⟨hcarves, -⟩ := @local_memory_settled (alone shelvedCommand shelvedArena default) _ rfl
      ⟨⟨[2], [1], [0], rfl⟩, by decide, by decide, by decide⟩ (alone_resolving rfl (by decide))
    have hall := hcarves (by decide)
    exact ⟨rfl, hall.unbroken, fun call hcall => (hall.carved 16 call hcall).locals 2 3 rfl⟩
  · obtain ⟨-, hoverflows⟩ := @local_memory_settled (alone Pool.greedyDispatch default Pool.smallArenas) _ rfl
      ⟨⟨[1], [1], [0], rfl⟩, by decide, by decide, by decide⟩ (alone_resolving rfl (by decide))
    have hall := hoverflows (by decide)
    have hbefore := Site.Reachable.start Pool.smallArenas { id := 0, core := 0, arena := default } rfl rfl
      |>.step (.call Pool.greedyDispatch (by simp)) |>.step (.announce (n := 0) rfl)
      |>.step (.push (n := 0) rfl rfl) |>.step (.work rfl rfl) |>.step (.work rfl rfl)
      |>.step (.work rfl rfl) |>.step (.work rfl rfl)
    have hon := (fun {site} (_ : Site.Reachable site) (hshared : site.shared = _) hrunning =>
      (⟨hrunning, hshared⟩ : (alone Pool.greedyDispatch default Pool.smallArenas).On 3 site)) hbefore rfl
        ⟨_, rfl, rfl⟩
    obtain ⟨broken, hbreaks, hstops⟩ := hall.outOfService _ hbefore hon
    exact ⟨hall.uninvoked, _, broken, hbefore, hon, hbreaks, hstops⟩

end ComputeCore
