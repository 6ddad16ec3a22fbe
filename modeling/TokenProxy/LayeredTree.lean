/-
  TokenProxy/LayeredTree.lean
  ===========================
  **Trees laid over one another, seen as what stands at each path.**

  A tree is a partial function from paths to nodes that knows its root: above
  whatever is there stand branches.  `laid b o` is `b` with `o` laid over it: what
  `o` has counts, and under a leaf of `o` nothing of `b` is left.

  A leaf of `o` where `b` has a branch is a clash: it takes a whole subtree of `b`
  away.  `leaveOut b o` is `o` without its clashes.  `laid_laid_leaveOut_iff` says
  when a third layer hides what the clashes of the second one did.
-/
import Mathlib.Data.List.Basic
import Mathlib.Tactic.Cases

namespace TokenProxy

inductive Node (V : Type*) where
  | branch
  | leaf (v : V)
deriving DecidableEq

@[ext] structure Tree (K V : Type*) where
  node : List K → Option (Node V)
  rooted : ∀ q r, r ≠ [] → node (q ++ r) ≠ none → node q = some .branch

namespace Tree

variable {K V : Type*}

/-- A leaf strictly above `p`. -/
def Cut (o : Tree K V) (p : List K) : Prop :=
  ∃ q r v, p = q ++ r ∧ r ≠ [] ∧ o.node q = some (.leaf v)

def empty : Tree K V where
  node _ := none
  rooted _ _ _ h := absurd rfl h

/-- What stands below the key `k`. -/
def sub (t : Tree K V) (k : K) : Tree K V where
  node p := t.node (k :: p)
  rooted q r hr h := t.rooted (k :: q) r hr h

@[simp] theorem node_sub (t : Tree K V) (k : K) (p : List K) :
    (t.sub k).node p = t.node (k :: p) := rfl

theorem none_of_leaf {t : Tree K V} {q r : List K} {v : V} (hr : r ≠ [])
    (h : t.node q = some (.leaf v)) : t.node (q ++ r) = none := by
  by_contra hne
  rw [t.rooted q r hr hne] at h
  cases h

theorem root_of_branch {t : Tree K V} {p : List K} (h : t.node p = some .branch) :
    t.node [] = some .branch := by
  rcases p with _ | ⟨k, p⟩
  · exact h
  · exact t.rooted [] (k :: p) nofun (by rw [List.nil_append, h]; nofun)

theorem none_of_cut {t : Tree K V} {p : List K} (h : t.Cut p) : t.node p = none := by
  obtain ⟨q, r, v, rfl, hr, hleaf⟩ := h
  exact none_of_leaf hr hleaf

theorem Cut.append {t : Tree K V} {p : List K} (h : t.Cut p) (r : List K) : t.Cut (p ++ r) := by
  obtain ⟨q, s, v, rfl, hs, hleaf⟩ := h
  refine ⟨q, s ++ r, v, List.append_assoc q s r, ?_, hleaf⟩
  intro hnil
  exact hs (List.append_eq_nil_iff.mp hnil).1

/-- Two leaves on the way to one path are the same leaf. -/
theorem eq_of_leaves {t : Tree K V} {q q' r r' : List K} {v v' : V} (h : q ++ r = q' ++ r')
    (hq : t.node q = some (.leaf v)) (hq' : t.node q' = some (.leaf v')) : q = q' := by
  obtain ⟨s, rfl, -⟩ | ⟨s, rfl, -⟩ := List.append_eq_append_iff.mp h
  · by_cases hs : s = []
    · rw [hs, List.append_nil]
    · rw [none_of_leaf hs hq] at hq'
      cases hq'
  · by_cases hs : s = []
    · rw [hs, List.append_nil]
    · rw [none_of_leaf hs hq'] at hq
      cases hq

theorem cut_cons {t : Tree K V} (hroot : t.node [] = some .branch) (k : K) (p : List K) :
    t.Cut (k :: p) ↔ (t.sub k).Cut p := by
  constructor
  · rintro ⟨q, r, v, heq, hr, hleaf⟩
    rcases q with _ | ⟨l, q⟩
    · rw [hroot] at hleaf
      cases hleaf
    · rw [List.cons_append, List.cons.injEq] at heq
      obtain ⟨rfl, rfl⟩ := heq
      exact ⟨q, r, v, rfl, hr, hleaf⟩
  · rintro ⟨q, r, v, rfl, hr, hleaf⟩
    exact ⟨k :: q, r, v, rfl, hr, hleaf⟩

/-! ## 1. One layer over another -/

open Classical in
/-- `o` laid over `b`. -/
noncomputable def laid (b o : Tree K V) : Tree K V where
  node p :=
    match o.node p with
    | some n => some n
    | none => if o.Cut p then none else b.node p
  rooted := by
    intro q r hr h
    cases hqr : o.node (q ++ r) with
    | some n =>
      have hq : o.node q = some .branch := o.rooted q r hr (by rw [hqr]; nofun)
      rw [hq]
    | none =>
      rw [hqr] at h
      simp only at h
      by_cases hcut : o.Cut (q ++ r)
      · rw [if_pos hcut] at h
        exact absurd rfl h
      · rw [if_neg hcut] at h
        have hb := b.rooted q r hr h
        rcases hq : o.node q with _ | _ | v
        · have hcutq : ¬ o.Cut q := fun hc => hcut (hc.append r)
          simp only
          rw [if_neg hcutq, hb]
        · rfl
        · exact absurd ⟨q, r, v, rfl, hr, hq⟩ hcut

theorem laid_of_some {b o : Tree K V} {p : List K} {n : Node V} (h : o.node p = some n) :
    (laid b o).node p = some n := by
  simp only [laid, h]

theorem laid_of_cut {b o : Tree K V} {p : List K} (h : o.Cut p) : (laid b o).node p = none := by
  simp only [laid, none_of_cut h, if_pos h]

theorem laid_of_free {b o : Tree K V} {p : List K} (h : o.node p = none) (hcut : ¬ o.Cut p) :
    (laid b o).node p = b.node p := by
  simp only [laid, h, if_neg hcut]

/-- Below a key, laying over is laying over below that key. -/
theorem laid_sub {b o : Tree K V} (hroot : o.node [] = some .branch) (k : K) (p : List K) :
    (laid b o).node (k :: p) = (laid (b.sub k) (o.sub k)).node p := by
  cases h : o.node (k :: p) with
  | some n => rw [laid_of_some h, laid_of_some (o := o.sub k) h]
  | none =>
    by_cases hcut : o.Cut (k :: p)
    · rw [laid_of_cut hcut, laid_of_cut ((cut_cons hroot k p).mp hcut)]
    · have hsub : ¬ (o.sub k).Cut p := fun hc => hcut ((cut_cons hroot k p).mpr hc)
      rw [laid_of_free h hcut, laid_of_free (o := o.sub k) h hsub]
      rfl

theorem laid_empty (b : Tree K V) (p : List K) : (laid b empty).node p = b.node p := by
  apply laid_of_free rfl
  rintro ⟨q, r, v, -, -, hleaf⟩
  cases hleaf

/-- Over what has nothing below its root, a layer with a root stands alone. -/
theorem laid_of_bare {b o : Tree K V} (ho : o.node [] ≠ none)
    (h : ∀ k p, b.node (k :: p) = none) (p : List K) : (laid b o).node p = o.node p := by
  cases hp : o.node p with
  | some n => exact laid_of_some hp
  | none =>
    by_cases hcut : o.Cut p
    · exact laid_of_cut hcut
    · rw [laid_of_free hp hcut]
      rcases p with _ | ⟨k, p⟩
      · exact absurd hp ho
      · exact h k p

/-- Where not both roots are branches, the upper layer replaces the lower one. -/
theorem laid_of_replaced {b o : Tree K V} (ho : o.node [] ≠ none)
    (h : b.node [] = some .branch → o.node [] ≠ some .branch) (p : List K) :
    (laid b o).node p = o.node p := by
  by_cases hb : b.node [] = some .branch
  · rcases hroot : o.node [] with _ | _ | v
    · exact absurd hroot ho
    · exact absurd hroot (h hb)
    · rcases p with _ | ⟨k, p⟩
      · rw [laid_of_some hroot, hroot]
      · have hcut : o.Cut (k :: p) := ⟨[], k :: p, v, rfl, nofun, hroot⟩
        rw [laid_of_cut hcut, none_of_cut hcut]
  · apply laid_of_bare ho
    intro k p
    by_contra hne
    exact hb (b.rooted [] (k :: p) nofun hne)

theorem laid_congr_left {b b' o : Tree K V} {p : List K} (h : b.node p = b'.node p) :
    (laid b o).node p = (laid b' o).node p := by
  cases ho : o.node p with
  | some n => rw [laid_of_some ho, laid_of_some ho]
  | none =>
    by_cases hcut : o.Cut p
    · rw [laid_of_cut hcut, laid_of_cut hcut]
    · rw [laid_of_free ho hcut, laid_of_free ho hcut, h]

/-! ## 2. Clashes -/

/-- `o` has a leaf where `b` has a branch. -/
def Clash (b o : Tree K V) (p : List K) : Prop :=
  b.node p = some .branch ∧ ∃ v, o.node p = some (.leaf v)

open Classical in
/-- `o` without its clashes with `b`. -/
noncomputable def leaveOut (b o : Tree K V) : Tree K V where
  node p := if Clash b o p then none else o.node p
  rooted := by
    intro q r hr h
    have hnot : ¬ Clash b o (q ++ r) := fun hc => h (if_pos hc)
    rw [if_neg hnot] at h
    have hq := o.rooted q r hr h
    rw [if_neg, hq]
    rintro ⟨-, v, hv⟩
    rw [hq] at hv
    cases hv

theorem leaveOut_of_clash {b o : Tree K V} {p : List K} (h : Clash b o p) :
    (leaveOut b o).node p = none := if_pos h

theorem leaveOut_of_not_clash {b o : Tree K V} {p : List K} (h : ¬ Clash b o p) :
    (leaveOut b o).node p = o.node p := if_neg h

theorem leaf_of_leaf_leaveOut {b o : Tree K V} {p : List K} {v : V}
    (h : (leaveOut b o).node p = some (.leaf v)) :
    o.node p = some (.leaf v) ∧ b.node p ≠ some .branch := by
  by_cases hc : Clash b o p
  · rw [leaveOut_of_clash hc] at h
    cases h
  · rw [leaveOut_of_not_clash hc] at h
    exact ⟨h, fun hb => hc ⟨hb, v, h⟩⟩

theorem leaveOut_of_no_branch {b : Tree K V} (h : b.node [] ≠ some .branch) (o : Tree K V)
    (p : List K) : (leaveOut b o).node p = o.node p := by
  apply leaveOut_of_not_clash
  exact fun hc => h (root_of_branch hc.1)

theorem leaveOut_sub (b o : Tree K V) (k : K) (p : List K) :
    (leaveOut b o).node (k :: p) = (leaveOut (b.sub k) (o.sub k)).node p := rfl

/-- A clash left out takes nothing away: at it and below it stands what `b` has. -/
theorem laid_leaveOut_of_clash {b o : Tree K V} {c : List K} (h : Clash b o c) (r : List K) :
    (laid b (leaveOut b o)).node (c ++ r) = b.node (c ++ r) := by
  obtain ⟨hb, v, hv⟩ := h
  have hnone : (leaveOut b o).node (c ++ r) = none := by
    by_cases hr : r = []
    · rw [hr, List.append_nil]
      exact leaveOut_of_clash ⟨hb, v, hv⟩
    · rw [leaveOut_of_not_clash, none_of_leaf hr hv]
      rintro ⟨-, w, hw⟩
      rw [none_of_leaf hr hv] at hw
      cases hw
  apply laid_of_free hnone
  rintro ⟨q, s, w, heq, -, hleaf⟩
  obtain ⟨hq, hbq⟩ := leaf_of_leaf_leaveOut hleaf
  rw [← eq_of_leaves heq hv hq] at hbq
  exact hbq hb

theorem laid_leaveOut_of_branch {b : Tree K V} {p : List K} (h : b.node p = some .branch)
    (o : Tree K V) : (laid b (leaveOut b o)).node p = some .branch := by
  by_cases hc : Clash b o p
  · have hkept := laid_leaveOut_of_clash hc []
    rwa [List.append_nil, h] at hkept
  · have hself := leaveOut_of_not_clash hc
    rcases ho : o.node p with _ | _ | v
    · rw [laid_of_free (hself.trans ho), h]
      rintro ⟨q, r, v, rfl, hr, hleaf⟩
      exact (leaf_of_leaf_leaveOut hleaf).2 (b.rooted q r hr (by rw [h]; nofun))
    · exact laid_of_some (hself.trans ho)
    · exact absurd ⟨h, v, ho⟩ hc

/-- Away from the clashes it makes no difference that they are left out. -/
theorem laid_leaveOut_of_clear {b o : Tree K V} {p : List K}
    (h : ∀ q r, p = q ++ r → ¬ Clash b o q) :
    (laid b (leaveOut b o)).node p = (laid b o).node p := by
  have hself : (leaveOut b o).node p = o.node p :=
    leaveOut_of_not_clash (h p [] (List.append_nil p).symm)
  have hcut : (leaveOut b o).Cut p ↔ o.Cut p := by
    constructor
    · rintro ⟨q, r, v, rfl, hr, hleaf⟩
      exact ⟨q, r, v, rfl, hr, (leaf_of_leaf_leaveOut hleaf).1⟩
    · rintro ⟨q, r, v, rfl, hr, hleaf⟩
      refine ⟨q, r, v, rfl, hr, ?_⟩
      rw [leaveOut_of_not_clash (h q r rfl), hleaf]
  cases ho : o.node p with
  | some n => rw [laid_of_some ho, laid_of_some (hself.trans ho)]
  | none =>
    by_cases hc : o.Cut p
    · rw [laid_of_cut hc, laid_of_cut (hcut.mpr hc)]
    · rw [laid_of_free ho hc, laid_of_free (hself.trans ho) fun hc' => hc (hcut.mp hc')]

theorem laid_of_clash {b o : Tree K V} {c : List K} (h : Clash b o c) :
    (laid b o).node c ≠ (laid b (leaveOut b o)).node c := by
  have hkept := laid_leaveOut_of_clash h []
  obtain ⟨hb, v, hv⟩ := h
  rw [List.append_nil, hb] at hkept
  rw [hkept, laid_of_some hv]
  nofun

theorem laid_agree_iff (b o : Tree K V) :
    (∀ p, (laid b o).node p = (laid b (leaveOut b o)).node p) ↔ ∀ c, ¬ Clash b o c := by
  constructor
  · intro h c hc
    exact laid_of_clash hc (h c)
  · intro h p
    exact (laid_leaveOut_of_clear fun q _ _ => h q).symm

/-! ## 3. A third layer -/

/-- Where the third layer `v` has something wherever `b` has something below a clash. -/
def Hidden (b o v : Tree K V) : Prop :=
  ∀ c r, Clash b o c → b.node (c ++ r) ≠ none → v.node (c ++ r) ≠ none

theorem hidden_of_laid_laid {b o v : Tree K V}
    (hclear : ∀ c, ¬ Clash (laid b (leaveOut b o)) v c)
    (h : ∀ p, (laid (laid b o) v).node p = (laid (laid b (leaveOut b o)) v).node p) :
    Hidden b o v := by
  intro c r hclash hb hv
  have hkept := laid_leaveOut_of_clash hclash r
  have hcut : ¬ v.Cut (c ++ r) := by
    rintro ⟨q, s, w, heq, hs, hleaf⟩
    have hne : (laid b (leaveOut b o)).node (q ++ s) ≠ none := by
      rw [← heq, hkept]
      exact hb
    exact hclear q ⟨(laid b (leaveOut b o)).rooted q s hs hne, w, hleaf⟩
  have heq := h (c ++ r)
  rw [laid_of_free hv hcut, laid_of_free hv hcut, hkept] at heq
  obtain ⟨hbranch, w, hw⟩ := hclash
  by_cases hr : r = []
  · rw [hr, List.append_nil, laid_of_some hw, hbranch] at heq
    cases heq
  · rw [laid_of_cut ⟨c, r, w, rfl, hr, hw⟩] at heq
    exact hb heq.symm

theorem laid_laid_of_hidden {b o v : Tree K V} (hhidden : Hidden b o v) (p : List K) :
    (laid (laid b o) v).node p = (laid (laid b (leaveOut b o)) v).node p := by
  cases hv : v.node p with
  | some n => rw [laid_of_some hv, laid_of_some hv]
  | none =>
    apply laid_congr_left
    by_cases hclear : ∀ q r, p = q ++ r → ¬ Clash b o q
    · exact (laid_leaveOut_of_clear hclear).symm
    · push Not at hclear
      obtain ⟨c, r, rfl, hclash⟩ := hclear
      have hb : b.node (c ++ r) = none := by
        by_contra hne
        exact hhidden c r hclash hne hv
      rw [laid_leaveOut_of_clash hclash, hb]
      obtain ⟨hbranch, w, hw⟩ := hclash
      by_cases hr : r = []
      · rw [hr, List.append_nil, hbranch] at hb
        cases hb
      · exact laid_of_cut ⟨c, r, w, rfl, hr, hw⟩

/-- Two layers over `b` end as they do with every clash left out exactly when the
second one has no clash and sets all that the clashes of the first one took away. -/
theorem laid_laid_leaveOut_iff (b o v : Tree K V) :
    (∀ p, (laid (laid b o) v).node p =
        (laid (laid b (leaveOut b o)) (leaveOut (laid b (leaveOut b o)) v)).node p) ↔
      (∀ c, ¬ Clash (laid b (leaveOut b o)) v c) ∧ Hidden b o v := by
  have hlast := fun p => laid_leaveOut_of_clear (b := laid b (leaveOut b o)) (o := v) (p := p)
  constructor
  · intro h
    have hclear : ∀ c, ¬ Clash (laid b (leaveOut b o)) v c := by
      intro c hc
      have hkept := laid_leaveOut_of_clash hc []
      obtain ⟨hbranch, w, hw⟩ := hc
      rw [List.append_nil, ← h c, laid_of_some hw, hbranch] at hkept
      cases hkept
    refine ⟨hclear, hidden_of_laid_laid hclear fun p => ?_⟩
    rw [h p, hlast p fun q _ _ => hclear q]
  · rintro ⟨hclear, hhidden⟩ p
    rw [hlast p fun q _ _ => hclear q, laid_laid_of_hidden hhidden p]

end Tree

end TokenProxy
