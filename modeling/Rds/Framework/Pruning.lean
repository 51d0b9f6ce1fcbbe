import Rds.Framework.SystemCalls

/-!
# Removing names from a tree

A sweep removes names from a tree and does nothing else. `Pruned removable ref fs`
says that `fs` came from `ref` that way: every name is as it was or is gone and was
removable, a directory went only once it was empty, and no data changed. A file
counts as removed only if the name was its one link, so its link count dropped
from one to zero and no other count moved.

Because a sweep adds nothing, what it finds was there from the start
(`Pruned.found`, `Pruned.singleLink`). A sweep that decides by what it reads can
therefore be described by the tree it started from.
-/

namespace Framework

open Function

/-- Since `ref`, removable names were removed and nothing else happened. -/
structure Pruned (removable : FsPath → Prop) (ref fs : Fs) : Prop where
  names : ∀ p : FsPath, fs.names[p]? = ref.names[p]? ∨ (fs.names[p]? = none ∧ removable p)
  /-- What a power loss may leave is what it might have left before, or the removal. -/
  disk : ∀ p : FsPath, ∀ n ∈ fs.disk p, n ∈ ref.disk p ∨ n = ref.names[p]? ∨ (n = none ∧ removable p)
  /-- A directory that is gone has nothing left in it. -/
  emptied : ∀ p : FsPath, ref.names[p]? = some .directory → fs.names[p]? = none →
    ∀ q : FsPath, q ≠ [] → q.dropLast = p → fs.names[q]? = none
  data : ∀ i, (fs.inode i).data = (ref.inode i).data
  synced : ∀ i, (fs.inode i).synced = (ref.inode i).synced
  /-- A link count moved only because the one link of a file was removed. -/
  links : ∀ i, (fs.inode i).links = (ref.inode i).links ∨
    ((ref.inode i).links = 1 ∧ (fs.inode i).links = 0 ∧
      ∃ p : FsPath, removable p ∧ ref.names[p]? = some (.file i) ∧ fs.names[p]? = none)
  next : fs.next = ref.next
  renamed : fs.renamed = ref.renamed

namespace Pruned

variable {removable : FsPath → Prop} {ref fs fs' : Fs} {p : FsPath}

theorem refl (removable : FsPath → Prop) (fs : Fs) : Pruned removable fs fs where
  names _ := Or.inl rfl
  disk _ _ hn := Or.inl hn
  emptied _ hdir hgone := nomatch hdir.symm.trans hgone
  data _ := rfl
  synced _ := rfl
  links _ := Or.inl rfl
  next := rfl
  renamed := rfl

section

variable (h : Pruned removable ref fs)
include h

theorem found {n : Node} (hn : fs.names[p]? = some n) :
    ref.names[p]? = some n := by
  rcases h.names p with heq | ⟨hgone, -⟩
  · rw [← heq, hn]
  · cases hn.symm.trans hgone

theorem singleLink {i : ℕ} (hi : (fs.inode i).links = 1) :
    (ref.inode i).links = 1 := by
  rcases h.links i with heq | ⟨hone, -, -⟩
  · rw [← heq, hi]
  · exact hone

theorem untouched (hp : ¬ removable p) :
    fs.names[p]? = ref.names[p]? :=
  (h.names p).resolve_right fun hgone => hp hgone.2

theorem unmoved (hp : ¬ removable p) : Unmoved p ref fs where
  name := h.untouched hp
  disk n hn := by
    rcases h.disk p n hn with hold | hnow | ⟨-, hrem⟩
    · exact .inl hold
    · exact .inr hnow
    · exact absurd hrem hp
  data i _ := h.data i
  synced i _ hs := by rw [h.synced i, hs]
  next := h.next.ge
  renamed := by rw [h.renamed]

theorem setName (hp : removable p) (hempty : ref.names[p]? = some .directory →
      ∀ q : FsPath, q ≠ [] → q.dropLast = p → fs.names[q]? = none) :
    Pruned removable ref (fs.setName p none (by simp)) where
  names q := by
    rw [Fs.names_setName]
    split
    next hq => exact .inr ⟨rfl, hq ▸ hp⟩
    · exact h.names q
  disk q n hn := by
    change n ∈ update fs.disk p (none :: fs.disk p) q at hn
    rw [update_apply] at hn
    split at hn
    next hqp =>
      rcases List.mem_cons.mp hn with rfl | hn
      · exact .inr (.inr ⟨rfl, hqp ▸ hp⟩)
      · exact h.disk q n (hqp ▸ hn)
    next => exact h.disk q n hn
  emptied q hdir hgone r hr hrq := by
    rw [Fs.names_setName] at hgone ⊢
    split at hgone
    · next hq =>
      -- the directory that was just removed was empty
      rw [hempty (hq ▸ hdir) r hr (hrq.trans hq), ite_self]
    · rw [h.emptied q hdir hgone r hr hrq, ite_self]
  data := h.data
  synced := h.synced
  links i := by
    rcases h.links i with heq | ⟨hone, hzero, q, hq, hfile, hgone⟩
    · exact .inl heq
    · refine .inr ⟨hone, hzero, q, hq, hfile, ?_⟩
      rw [Fs.names_setName, hgone, ite_self]
  next := h.next
  renamed := h.renamed

/-- **Removing a file** by its one link. -/
theorem unlink (hp : removable p) {i : ℕ}
    (hfile : fs.names[p]? = some (.file i)) (hlinks : (fs.inode i).links = 1) {u : Unit}
    (hrun : Fs.unlink p fs = .ok (u, fs')) : Pruned removable ref fs' := by
  unfold Fs.unlink at hrun
  rw [hfile] at hrun
  cases hrun
  have hdir : ref.names[p]? ≠ some .directory := by
    rw [h.found hfile]
    nofun
  have hgone := h.setName hp fun hd => absurd hd hdir
  -- the same tree, with one link fewer on the file
  refine ⟨hgone.names, hgone.disk, hgone.emptied, fun j => ?_, fun j => ?_, fun j => ?_,
    hgone.next, hgone.renamed⟩
  · exact (Fs.inode_dropLink fs (some (.file i)) j).1.trans (h.data j)
  · exact (Fs.inode_dropLink fs (some (.file i)) j).2.trans (h.synced j)
  by_cases hji : j = i
  · subst hji
    refine .inr ⟨h.singleLink hlinks, ?_, p, hp, h.found hfile, ?_⟩
    · show (update fs.inode j _ j).links = 0
      rw [update_self]
      rw [hlinks]
    · exact (Fs.names_setName _).trans (if_pos rfl)
  have hsame : (((fs.dropLink (some (.file i))).setName p none (by simp)).inode j).links =
      (fs.inode j).links := by
    show (update fs.inode i _ j).links = _
    rw [update_of_ne hji]
  rw [hsame]
  exact hgone.links j

/-- **Removing a directory.** -/
theorem rmdir (hp : removable p) {u : Unit}
    (hrun : Fs.rmdir p fs = .ok (u, fs')) : Pruned removable ref fs' := by
  unfold Fs.rmdir at hrun
  split at hrun
  · cases hrun
  · split_ifs at hrun with hkeys
    cases hrun
    refine h.setName hp fun _ q hq hqp => ?_
    -- a name in the directory would have been among the keys
    by_contra hsome
    refine hkeys (List.any_eq_true.mpr ⟨q, ?_, decide_eq_true ⟨hq, hqp⟩⟩)
    rw [Std.ExtTreeMap.mem_keys, Std.ExtTreeMap.mem_iff_isSome_getElem?]
    exact Option.isSome_iff_ne_none.mpr hsome
  · cases hrun

theorem syncDir (d : FsPath) :
    Pruned removable ref (fs.syncDir d) where
  names := h.names
  disk p n hn := by
    change n ∈ (if p ≠ [] ∧ p.dropLast = d then [fs.names[p]?] else fs.disk p) at hn
    split at hn
    · rw [List.mem_singleton.mp hn]
      exact .inr (h.names p)
    · exact h.disk p n hn
  emptied := h.emptied
  data := h.data
  synced := h.synced
  links := h.links
  next := h.next
  renamed := h.renamed

end

end Pruned

end Framework
