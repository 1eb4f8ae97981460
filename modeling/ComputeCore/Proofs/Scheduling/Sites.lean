import ComputeCore.Proofs.Scheduling.FailStop
import ComputeCore.Proofs.Scheduling.Lives
/-!
# Lives of jobs on a site

A life tells what becomes of one job; a site has a worker with a queue, and threads that submit to it.
`JobLife.On` says that the worker of a site carries the job of a life out, and has come to one of its turns.
How the job ends there is how the worker goes on: it counts the command off (`On.ends`), or gives up
(`On.breaks`).
-/

namespace ComputeCore

/-- A worker sleeps only when it has no command in hand. -/
theorem Site.Reachable.awake {site : Site} (h : Site.Reachable site) (hparked : site.parked = true) :
    site.worker.phase.Pops := by
  induction h with
  | start shared worker hphase hqueue => simp at hparked
  | step hbefore hstep ih =>
    cases hstep with
    | call command fresh | turnDown call closed | close | meanwhile shared => exact ih hparked
    | announce call | withdraw call => simpa using ih hparked
    | push call pushed | wake due => simp at hparked
    | work awake step => simp [awake] at hparked
    | park pops blocked => exact pops

/-- The site on which the worker has come to the end of a command. -/
def Site.over (site : Site) (shared : Shared) (command : Command) (ending : Ending) : Site :=
  { site with shared, worker := { site.worker with phase := .uncounting command ending true } }

namespace JobLife

/-- The worker of this site carries out the job of this life, and is about to take turn `n`. -/
structure On (life : JobLife) (n : Nat) (site : Site) : Prop where
  running : ∃ job, site.worker.phase = .running life.command job ∧
    life.stage n = .going site.worker.arena job
  shared : site.shared = life.world n

section Turns
variable {life : JobLife} {n : Nat} {site : Site} {ending : Ending}

/-- The step in which a job ends or breaks. -/
theorem after_of_next {arena : LocalArena} {job : Job} (hstage : life.stage n = .going arena job)
    (hnext : ∀ arena job, life.stage (n + 1) ≠ .going arena job) :
    JobStage.after (Worker.stepJob (life.world n) arena life.command job) = some (life.stage (n + 1)) := by
  cases hafter : JobStage.after (Worker.stepJob (life.world n) arena life.command job) with
  | none =>
    obtain ⟨hsame, -⟩ := next_of_waits ⟨arena, job, hstage, after_eq_none.1 hafter⟩
    exact absurd (hsame.trans hstage) (hnext arena job)
  | some stage => rw [(next_of_step hstage hafter).1]

theorem On.awake (h : life.On n site) (hreachable : Site.Reachable site) : site.parked = false := by
  obtain ⟨job, hphase, -⟩ := h.running
  by_contra hparked
  have := hreachable.awake (by simpa using hparked)
  simp [hphase, Phase.Pops] at this

/-- A job that ends lets its worker go on to report it. -/
theorem On.ends (h : life.On n site) (hreachable : Site.Reachable site)
    (hended : life.stage (n + 1) = .ended ending) :
    Site.Step site (site.over (life.left n) life.command ending) := by
  obtain ⟨job, hphase, hstage⟩ := h.running
  have hafter := after_of_next hstage (by simp [hended])
  have hleft : life.left n =
      (Worker.stepJob (life.world n) site.worker.arena life.command job).shared?.getD (life.world n) := by
    simp only [left, hstage, leave]
  rw [hended] at hafter
  cases hstep : Worker.stepJob (life.world n) site.worker.arena life.command job with
  | moved | broken | blocked => simp [hstep, JobStage.after] at hafter
  | ended shared ending' =>
    rw [hstep] at hafter hleft
    simp only [JobStage.after, Option.some.injEq, JobStage.ended.injEq] at hafter
    have hturn : site.worker.step? site.shared = some (life.left n,
        { site.worker with phase := .uncounting life.command ending true }) := by
      simp [Worker.step?, hphase, h.shared, hstep, hafter, hleft, Worker.JobStep.shared?]
    simpa [Site.over, Worker.starting?, Worker.reporting?, hphase] using
      Site.Step.work (h.awake hreachable) hturn

/-- A job that breaks makes its worker give up. -/
theorem On.breaks (h : life.On n site) (hreachable : Site.Reachable site)
    (hbroken : life.stage (n + 1) = .broken) : ∃ broken, site.Breaks life.command broken := by
  obtain ⟨job, hphase, hstage⟩ := h.running
  have hafter := after_of_next hstage (by simp [hbroken])
  rw [hbroken] at hafter
  cases hstep : Worker.stepJob (life.world n) site.worker.arena life.command job with
  | moved | ended | blocked => simp [hstep, JobStage.after] at hafter
  | broken shared => exact ⟨_, .work (h.awake hreachable) hphase (h.shared ▸ hstep)⟩

/-- Every life is carried out on some site: nobody but its worker has to do anything there. By induction on
the turns. -/
theorem exists_on (life : JobLife) {arena : LocalArena} {job : Job} (hstage : life.stage n = .going arena job) :
    ∃ site, Site.Reachable site ∧ life.On n site := by
  induction n generalizing arena job with
  | zero =>
    have hfetched := Site.Reachable.start (life.world 0) { id := 0, core := 0, arena := life.arena } rfl rfl
      |>.step (.call life.command (by simp)) |>.step (.announce (n := 0) rfl)
      |>.step (.push (n := 0) rfl rfl) |>.step (.work rfl rfl)
    exact ⟨_, hfetched, ⟨.fresh, rfl, rfl⟩, rfl⟩
  | succ n ih =>
    cases hbefore : life.stage n with
    | ended | broken =>
      have hover : ∀ arena job, life.stage n ≠ .going arena job := by simp [hbefore]
      rw [(next_of_over hover).1] at hstage
      exact absurd hstage (hover arena job)
    | going arena₀ job₀ =>
      obtain ⟨site, hreachable, hon⟩ := ih hbefore
      have hawake := hon.awake hreachable
      obtain ⟨⟨job', hphase, hgoing⟩, hshared⟩ := hon
      cases hstep : Worker.stepJob (life.world n) site.worker.arena life.command job' with
      | blocked =>
        have hsame := (next_of_waits ⟨_, job', hgoing, hstep⟩).1
        exact ⟨_, hreachable.step (.meanwhile (life.world (n + 1))),
          ⟨job', hphase, hsame.trans hgoing⟩, rfl⟩
      | moved shared arena' next =>
        have hnext := (next_of_step hgoing (by rw [hstep]; rfl)).1
        have hturn : site.worker.step? site.shared =
            some (shared, { site.worker with arena := arena', phase := .running life.command next }) := by
          simp [Worker.step?, hphase, hshared, hstep]
        exact ⟨_, (hreachable.step (.work hawake hturn)).step (.meanwhile (life.world (n + 1))),
          ⟨next, rfl, hnext⟩, rfl⟩
      | ended shared ending | broken shared =>
        have hnext := (next_of_step hgoing (by rw [hstep]; rfl)).1
        rw [hnext] at hstage
        cases hstage

end Turns

end JobLife

end ComputeCore
