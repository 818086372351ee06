import Sysroot.Proofs.Install.Linkless

/-!
# Installing everything or nothing

When a request fails the tree is as it was (`Request.run_allOrNothing`), provided that every path it
asks about can be asked about, that no link in the sysroot leads to a directory while it copies, and
that the manifest of its library is no link.
-/

namespace Sysroot.Install

open Sysroot.Tree Sysroot.Tree.Action

variable {t t' : Tree} {root : Path} {R : Location} {k : Nat} {l : Library} {r : Request}
  {m : OrderedMap String Path} {fault : Fault}

theorem Reverted.refl (h : ∀ t₁, create root t = (.ok (), t₁) → Sited t root R k) :
    Reverted t t root R k :=
  ⟨.refl t, h, fun _ _ _ _ _ => rfl⟩

/-- What has to hold for a request to be carried out as it should: the path of the root leads to
where the sysroot is, whatever is in it; every path below it can be asked about; and neither the
places nor the manifest are reached through links. -/
structure Sound (t : Tree) (root : Path) (R : Location) (k : Nat) (l : Library) (r : Request) :
    Prop where
  normal : r.Normal
  targets : t.TargetsFit
  site : ∀ t₁, create root t = (.ok (), t₁) → Sited t root R k
  links : ∀ m t', r.mapping l t = (.ok m, t) → Passes root l m t t' → NoDirLinks t' R k
  manifest : ∀ target, t.get? (R ++ manifestNames l) ≠ some (.link target)

/-- A sound request is ready to be carried out when the directories can be made and the owners
told. -/
theorem Sound.ready (h : Sound t root R k l r) {owned : OrderedMap String Library}
    (hm : r.mapping l t = (.ok m, t)) (howned : owners root t = (.ok owned, t))
    (hcreate : create root t = (.ok (), t')) : Ready t root R k l m where
  site := h.site t' hcreate
  links := fun t' => h.links m t' hm
  askable := fun _ _ _ => h.targets
  entries := fun item hitem => by
    obtain ⟨dir, -, hfrom⟩ := Request.mapping_ok h.normal hm item hitem
    exact hfrom.1
  sources := fun _ _ _ _ _ _ => h.targets
  manifest := h.manifest
  readable := fun content executable hfile => by
    have hsite := h.site t' hcreate
    obtain ⟨-, -, hnull, -⟩ := create_spec hsite hcreate (h.links m t' hm (.created hcreate))
    exact owners_readable howned (hsite.seat (get?_of_append hfile (List.cons_ne_nil _ _))) hnull
      hfile

/-- A sound request fails and leaves things as they were, or installs everything it asks for. -/
theorem Sound.run_spec (h : Sound t root R k l r) :
    (∃ fault t', r.run root l t = (.error fault, t') ∧ Reverted t t' root R k) ∨
    ∃ m owned t₁ t', r.mapping l t = (.ok m, t) ∧ owners root t = (.ok owned, t) ∧
      collisions owned l m = [] ∧ create root t = (.ok (), t₁) ∧ Ready t root R k l m ∧
      r.run root l t = (.ok ((inOrder m).map fun item => root / item.1), t') ∧
      Installed t t' root R k l m := by
  rcases Request.run_cases root l r t with ⟨fault, hfail⟩ | ⟨m, owned, hm, howned, hnone, hrun⟩
  · exact .inl ⟨fault, t, hfail, .refl h.site⟩
  rcases hcreate : create root t with ⟨fault | _, t₁⟩
  · obtain ⟨⟨fault', hfail⟩, hgrown⟩ :
        (∃ fault', transact root l m t = (.error fault', t₁)) ∧ t.Grown t₁ :=
      transact_of_not_created hcreate
    refine .inl ⟨fault', t₁, hrun.trans hfail, hgrown, fun t₂ ht₂ => ?_, fun t₂ ht₂ => ?_⟩
    · rw [hcreate] at ht₂
      cases ht₂
    · rw [hcreate] at ht₂
      cases ht₂
  · have hready := h.ready hm howned hcreate
    rcases transact_spec hready with ⟨fault, t', hfail, hrev⟩ | ⟨t', hok, hinst⟩
    · exact .inl ⟨fault, t', hrun.trans hfail, hrev⟩
    · exact .inr ⟨m, owned, t₁, t', hm, howned, hnone, rfl, hready, hrun.trans hok, hinst⟩

end Sysroot.Install
