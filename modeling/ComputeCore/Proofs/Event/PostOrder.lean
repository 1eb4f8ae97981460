import ComputeCore.Proofs.Event.Forest
/-!
# Links in post-order

The order in which a wait takes the events under its own: what is linked under an event comes before it, oldest
link first. `PostOrder` says this for a line of links, and takes a handle that names no event for one with
nothing under it, so that the order also says when such a link is passed.

In a forest every line has a post-order (`exists_postOrder`). It lists what the links lead to (`mem_iff`), each
handle once (`nodup`), and nothing outside of it is linked to anything inside but the line itself
(`link_of_outside`).
-/

namespace ComputeCore

/-- The handles that a line of links leads to, in post-order. -/
inductive PostOrder (lookup? : Event → Option EventEntry) : List Event → List Event → Prop
  | nil : PostOrder lookup? [] []
  | cons {event links under more} (below : PostOrder lookup? (linksOf lookup? event) under)
      (rest : PostOrder lookup? links more) : PostOrder lookup? (event :: links) (under ++ event :: more)

section PostOrder
variable {lookup? : Event → Option EventEntry} {event other child : Event} {links order under : List Event}
  {given : List Event}

theorem PostOrder.cons_of_links {low more : List Event} (hlinks : linksOf lookup? event = low)
    (hbelow : PostOrder lookup? low under) (hrest : PostOrder lookup? links more) :
    PostOrder lookup? (event :: links) (under ++ event :: more) :=
  .cons (hlinks ▸ hbelow) hrest

/-- By induction on the order: a handle is below the first link or below a later one, and what is below a link
is the link itself or below one of those under it. -/
theorem PostOrder.mem_iff (h : PostOrder lookup? links order) :
    other ∈ order ↔ ∃ top ∈ links, Linked lookup? top other := by
  induction h with
  | nil => simp
  | @cons event links under more below rest ihBelow ihRest =>
    rw [List.mem_append, List.mem_cons, ihBelow, ihRest]
    constructor
    · rintro (⟨top, htop, hreach⟩ | rfl | ⟨top, htop, hreach⟩)
      · exact ⟨event, List.mem_cons_self, linked_iff.2 (.inr ⟨top, htop, hreach⟩)⟩
      · exact ⟨other, List.mem_cons_self, .self⟩
      · exact ⟨top, List.mem_cons_of_mem _ htop, hreach⟩
    · rintro ⟨top, htop, hreach⟩
      rcases List.mem_cons.1 htop with rfl | hlater
      · rcases linked_iff.1 hreach with rfl | ⟨child, hchild, hreach⟩
        · exact .inr (.inl rfl)
        · exact .inl ⟨child, hchild, hreach⟩
      · exact .inr (.inr ⟨top, hlater, hreach⟩)

theorem PostOrder.mem_of_link (h : PostOrder lookup? links order) (hlink : event ∈ links) : event ∈ order :=
  h.mem_iff.2 ⟨event, hlink, .self⟩

/-- A link that leads into the order from elsewhere is one of the line. -/
theorem PostOrder.link_of_outside (h : PostOrder lookup? links order) (hforest : Forest lookup? given)
    (hchild : child ∈ order) (hlink : child ∈ linksOf lookup? other) (houtside : other ∉ order) : child ∈ links := by
  obtain ⟨top, htop, hreach⟩ := h.mem_iff.1 hchild
  cases hreach with
  | self => exact htop
  | @link parent entry _ above found member =>
    obtain rfl := hforest.once parent other child (mem_linksOf_iff.2 ⟨entry, found, member⟩) hlink
    exact absurd (h.mem_iff.2 ⟨top, htop, above⟩) houtside

/-- No handle comes twice, if nothing is below two links of the line. -/
theorem PostOrder.nodup (h : PostOrder lookup? links order) (hforest : Forest lookup? given)
    (hapart : links.Pairwise fun first second => ∀ low, Linked lookup? first low → ¬ Linked lookup? second low) :
    order.Nodup := by
  induction h with
  | nil => exact List.nodup_nil
  | @cons event links under more below rest ihBelow ihRest =>
    obtain ⟨hfirst, hlater⟩ := List.pairwise_cons.1 hapart
    have hunder : under.Nodup := by
      apply ihBelow
      refine (hforest.nodup event).imp_of_mem ?_
      intro first second hfirst hsecond hne low hlow
      exact hforest.apart hfirst hsecond hne hlow
    have hevent : event ∉ under := by
      intro hmem
      obtain ⟨child, hchild, hreach⟩ := below.mem_iff.1 hmem
      have hup := hforest.later event child hchild
      have hdown := hreach.idxOf_le hforest
      omega
    have hmore : ∀ low, Linked lookup? event low → low ∉ more := by
      intro low hlow hmem
      obtain ⟨top, htop, hreach⟩ := rest.mem_iff.1 hmem
      exact hfirst top htop low hlow hreach
    refine List.nodup_append.2 ⟨hunder, List.nodup_cons.2 ⟨hmore event .self, ihRest hlater⟩, ?_⟩
    intro low hlow last hlast heq
    subst heq
    rcases List.mem_cons.1 hlast with rfl | hmem
    · exact hevent hlow
    · obtain ⟨child, hchild, hreach⟩ := below.mem_iff.1 hlow
      exact hmore low (linked_iff.2 (.inr ⟨child, hchild, hreach⟩)) hmem

/-- The order under one event, with the event itself at its end. -/
theorem PostOrder.singleton (h : PostOrder lookup? [event] order) :
    ∃ under, PostOrder lookup? (linksOf lookup? event) under ∧ order = under ++ [event] := by
  cases h with
  | @cons _ _ under _ below rest =>
    cases rest with
    | nil => exact ⟨under, below, rfl⟩

/-- By induction on how many handles were given after those of the line, and on the line itself. A handle that
was not given names no event, so nothing is below the last ones. -/
theorem exists_postOrder (hforest : Forest lookup? given) (links : List Event) :
    ∃ order, PostOrder lookup? links order := by
  suffices hbound : ∀ depth links, (∀ top ∈ links, given.length ≤ given.idxOf top + depth) →
      ∃ order, PostOrder lookup? links order from hbound given.length links fun _ _ => Nat.le_add_left _ _
  intro depth
  induction depth with
  | zero =>
    intro links hlinks
    induction links with
    | nil => exact ⟨[], .nil⟩
    | cons event links ih =>
      obtain ⟨more, hmore⟩ := ih fun top htop => hlinks top (List.mem_cons_of_mem _ htop)
      have hnone : linksOf lookup? event = [] := by
        refine List.eq_nil_iff_forall_not_mem.2 fun child hchild => ?_
        have hlast := hlinks event List.mem_cons_self
        have hgiven := List.idxOf_lt_length_iff.2 (hforest.parent_mem hchild)
        omega
      exact ⟨_, .cons_of_links hnone .nil hmore⟩
  | succ depth ihDepth =>
    intro links hlinks
    induction links with
    | nil => exact ⟨[], .nil⟩
    | cons event links ih =>
      obtain ⟨more, hmore⟩ := ih fun top htop => hlinks top (List.mem_cons_of_mem _ htop)
      obtain ⟨under, hunder⟩ := ihDepth (linksOf lookup? event) fun child hchild => by
        have hfirst := hlinks event List.mem_cons_self
        have hlater := hforest.later event child hchild
        omega
      exact ⟨_, .cons hunder hmore⟩

end PostOrder

end ComputeCore
