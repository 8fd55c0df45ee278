import Mathlib
import PocketKernel.Proofs.Paging.Lawful

/-!
# Forests of tables

The tables under several roots form a `Forest` when every directory entry is invalid or links a
table of its own. In a forest the leaf of an address is a value, `leafAt`, and mapping a page sets
this one leaf under this one root. Main statement: `Forest.mapPage_cases`.
-/
namespace PocketKernel.Paging
open TableView TableMemory LawfulTableMemory

section Code
variable {M : Type} [TableMemory M] {root va pa : UInt32} {perms : Perms}

theorem mapPage_of_unaligned_va (h : ¬ Vaddr.aligned va = true) :
    (mapPage root va pa perms : Action M Unit) = throw (.refused (.unalignedVaddr va)) := by
  simp only [mapPage, h, Bool.not_false]
  rfl

theorem mapPage_of_unaligned_pa (hva : Vaddr.aligned va = true) (h : ¬ Vaddr.aligned pa = true) :
    (mapPage root va pa perms : Action M Unit) = throw (.refused (.unalignedPaddr pa)) := by
  simp only [mapPage, hva, h, Bool.not_false, Bool.not_true]
  rfl

theorem mapPage_of_aligned (hva : Vaddr.aligned va = true) (hpa : Vaddr.aligned pa = true) :
    (mapPage root va pa perms : Action M Unit) = (do
      let entry ← directoryEntry root va
      storeWord (leafSlot entry va) (PageEntry.make pa perms.flags)) := by
  simp only [mapPage, hva, hpa, Bool.not_true]
  rfl

end Code

variable {M : Type} [TableMemory M] [LawfulTableMemory M]

/-- Every directory entry that is valid links a table, which nothing else links. -/
structure Forest (roots : Set UInt32) (m : M) : Prop where
  good : Good m
  root : ∀ r ∈ roots, Ready m r
  link : ∀ r ∈ roots, ∀ i : UInt32, i.toNat < 1024 → PageEntry.valid (word m r i) = true →
    ∃ t, word m r i = PageEntry.make t 1 ∧ Ready m t ∧ t ∉ roots
  apart : ∀ r ∈ roots, ∀ r' ∈ roots, ∀ i i' : UInt32, i.toNat < 1024 → i'.toNat < 1024 →
    PageEntry.valid (word m r i) = true → word m r i = word m r' i' → r = r' ∧ i = i'

def Linked (m : M) (root va : UInt32) : Prop :=
  PageEntry.valid (word m root (Vaddr.directoryIndex va)) = true

def tableOf (m : M) (root va : UInt32) : UInt32 :=
  PageEntry.frame (word m root (Vaddr.directoryIndex va))

instance (m : M) (root va : UInt32) : Decidable (Linked m root va) :=
  inferInstanceAs (Decidable (_ = true))

def leafAt (m : M) (root va : UInt32) : Option UInt32 :=
  if Linked m root va then
    (some (word m (tableOf m root va) (Vaddr.tableIndex va))).filter PageEntry.valid
  else none

theorem leafAt_congr {m m' : M} {root va : UInt32}
    (entry : word m' root (Vaddr.directoryIndex va) = word m root (Vaddr.directoryIndex va))
    (leaf : Linked m root va → word m' (tableOf m root va) (Vaddr.tableIndex va) =
      word m (tableOf m root va) (Vaddr.tableIndex va)) :
    leafAt m' root va = leafAt m root va := by
  have table : tableOf m' root va = tableOf m root va := by rw [tableOf, entry, tableOf]
  have linked : Linked m' root va ↔ Linked m root va := by rw [Linked, entry, Linked]
  unfold leafAt
  by_cases h : Linked m root va
  · rw [if_pos (linked.2 h), if_pos h, table, leaf h]
  · rw [if_neg (linked.not.2 h), if_neg h]

namespace Forest
variable {roots : Set UInt32} {m m' : M} {root va : UInt32}

/-- The table of an address that is linked. -/
theorem tableOf_cases (h : Forest roots m) (hr : root ∈ roots) (linked : Linked m root va) :
    word m root (Vaddr.directoryIndex va) = PageEntry.make (tableOf m root va) 1 ∧
      Ready m (tableOf m root va) ∧ tableOf m root va ∉ roots := by
  obtain ⟨t, entry, ready, other⟩ := h.link root hr _ (Vaddr.directoryIndex_lt va) linked
  have same : tableOf m root va = t := by
    rw [tableOf, entry, PageEntry.frame_link (aligned_of_ready ready)]
  rw [same]
  exact ⟨entry, ready, other⟩

/-- A walk in a forest finds the leaf. -/
theorem leaf?_eq (h : Forest roots m) (hr : root ∈ roots) (va : UInt32) :
    leaf? m root va = .ok (leafAt m root va) := by
  have entry : loadWord m (directorySlot root va) =
      .ok (word m root (Vaddr.directoryIndex va)) :=
    loadWord_ready h.good (h.root root hr) (Vaddr.directoryIndex_lt va)
  unfold leaf? leafAt
  rw [entry]
  by_cases linked : Linked m root va
  · obtain ⟨same, ready, -⟩ := h.tableOf_cases hr linked
    have leaf : loadWord m (leafSlot (word m root (Vaddr.directoryIndex va)) va) =
        .ok (word m (tableOf m root va) (Vaddr.tableIndex va)) :=
      loadWord_ready h.good ready (Vaddr.tableIndex_lt va)
    have pointer : PageEntry.isLeaf (word m root (Vaddr.directoryIndex va)) = false := by
      rw [same, PageEntry.isLeaf_link]
    have valid : PageEntry.valid (word m root (Vaddr.directoryIndex va)) = true := linked
    change (if PageEntry.valid _ && !PageEntry.isLeaf _ then _ else _ : Except Fault _) = _
    rw [valid, pointer, if_pos linked]
    change (do let leaf ← loadWord m _; _ : Except Fault _) = _
    rw [leaf]
    simp [Option.filter, pure, Except.pure, bind, Except.bind]
  · have invalid : PageEntry.valid (word m root (Vaddr.directoryIndex va)) = false := by
      simpa [Linked] using linked
    change (if PageEntry.valid _ && !PageEntry.isLeaf _ then _ else _ : Except Fault _) = _
    rw [invalid, if_neg linked]
    rfl

/-- What keeps all pages in use keeps the forest and its leaves. -/
theorem keeps (h : Forest roots m) (kept : Keeps m m') :
    Forest roots m' ∧ ∀ r ∈ roots, ∀ a, leafAt m' r a = leafAt m r a := by
  have same : ∀ r ∈ roots, ∀ i : UInt32, i.toNat < 1024 → word m' r i = word m r i :=
    fun r hr i hi => kept.word (h.root r hr) hi
  refine ⟨⟨kept.good, fun r hr => kept.ready (h.root r hr), fun r hr i hi => ?_, ?_⟩, ?_⟩
  · rw [same r hr i hi]
    intro valid
    obtain ⟨t, entry, ready, other⟩ := h.link r hr i hi valid
    exact ⟨t, entry, kept.ready ready, other⟩
  · intro r hr r' hr' i i' hi hi'
    rw [same r hr i hi, same r' hr' i' hi']
    exact h.apart r hr r' hr' i i' hi hi'
  · intro r hr a
    refine leafAt_congr (same r hr _ (Vaddr.directoryIndex_lt a)) ?_
    intro linked
    exact kept.word (h.tableOf_cases hr linked).2.1 (Vaddr.tableIndex_lt a)

/-- A fresh table of zeros is linked where nothing was linked. No leaf changes. -/
theorem linkTable (h : Forest roots m) (hr : root ∈ roots) (missing : ¬ Linked m root va)
    {t : UInt32} (ready : Ready m t) (other : t ∉ roots)
    (zero : ∀ i : UInt32, i.toNat < 1024 → word m t i = 0)
    (unlinked : ∀ r ∈ roots, ∀ i : UInt32, i.toNat < 1024 → word m r i ≠ PageEntry.make t 1)
    (stored : Stores root (Vaddr.directoryIndex va) (PageEntry.make t 1) m m') :
    Forest roots m' ∧ word m' root (Vaddr.directoryIndex va) = PageEntry.make t 1 ∧
      ∀ r ∈ roots, ∀ a, leafAt m' r a = leafAt m r a := by
  have entries : ∀ r ∈ roots, ∀ i : UInt32, i.toNat < 1024 → word m' r i =
      if r = root ∧ i = Vaddr.directoryIndex va then PageEntry.make t 1 else word m r i :=
    fun r hr i hi => stored.word (h.root r hr) hi
  have here : word m' root (Vaddr.directoryIndex va) = PageEntry.make t 1 := by
    rw [entries root hr _ (Vaddr.directoryIndex_lt va), if_pos ⟨rfl, rfl⟩]
  refine ⟨⟨stored.good, fun r hr => stored.ready.2 (h.root r hr), ?_, ?_⟩, here, ?_⟩
  · intro r hr i hi
    rw [entries r hr i hi]
    split
    next => exact fun _ => ⟨t, rfl, stored.ready.2 ready, other⟩
    next =>
      intro valid
      obtain ⟨t', entry, ready', other'⟩ := h.link r hr i hi valid
      exact ⟨t', entry, stored.ready.2 ready', other'⟩
  · intro r hr r' hr' i i' hi hi'
    rw [entries r hr i hi, entries r' hr' i' hi']
    split
    next new =>
      split
      next new' =>
        intro _ _
        exact ⟨new.1.trans new'.1.symm, new.2.trans new'.2.symm⟩
      next =>
        intro _ same
        exact absurd same.symm (unlinked r' hr' i' hi')
    next =>
      split
      next =>
        intro _ same
        exact absurd same (unlinked r hr i hi)
      next => exact h.apart r hr r' hr' i i' hi hi'
  · intro r hr' a
    by_cases new : r = root ∧ Vaddr.directoryIndex a = Vaddr.directoryIndex va
    · -- the new table has no leaf, and there was no table before
      obtain ⟨rfl, index⟩ := new
      have before : leafAt m r a = none := by
        have missing : ¬ Linked m r a := by rwa [Linked, index]
        rw [leafAt, if_neg missing]
      have entry : word m' r (Vaddr.directoryIndex a) = PageEntry.make t 1 := index ▸ here
      have table : tableOf m' r a = t := by
        rw [tableOf, entry, PageEntry.frame_link (aligned_of_ready ready)]
      have blank : word m' t (Vaddr.tableIndex a) = 0 := by
        rw [stored.word ready (Vaddr.tableIndex_lt a), if_neg, zero _ (Vaddr.tableIndex_lt a)]
        rintro ⟨rfl, -⟩
        exact other hr
      rw [before, leafAt, table, blank]
      split <;> rfl
    · refine leafAt_congr ?_ fun linked => ?_
      · rw [entries r hr' _ (Vaddr.directoryIndex_lt a), if_neg new]
      · obtain ⟨-, table_ready, table_other⟩ := h.tableOf_cases hr' linked
        rw [stored.word table_ready (Vaddr.tableIndex_lt a), if_neg]
        rintro ⟨same, -⟩
        exact table_other (same ▸ hr)

/-- A leaf is set in the table of an address. All other leaves stay. -/
theorem setLeaf (h : Forest roots m) (hr : root ∈ roots) (linked : Linked m root va)
    {leaf : UInt32} (valid : PageEntry.valid leaf = true)
    (stored : Stores (tableOf m root va) (Vaddr.tableIndex va) leaf m m') :
    Forest roots m' ∧ (∀ r ∈ roots, ∀ i : UInt32, i.toNat < 1024 → word m' r i = word m r i) ∧
      ∀ r ∈ roots, ∀ a, leafAt m' r a =
        if r = root ∧ Vaddr.page a = Vaddr.page va then some leaf else leafAt m r a := by
  obtain ⟨entry, ready, other⟩ := h.tableOf_cases hr linked
  have entries : ∀ r ∈ roots, ∀ i : UInt32, i.toNat < 1024 → word m' r i = word m r i := by
    intro r hr' i hi
    rw [stored.word (h.root r hr') hi, if_neg]
    rintro ⟨rfl, -⟩
    exact other hr'
  refine ⟨⟨stored.good, fun r hr => stored.ready.2 (h.root r hr), ?_, ?_⟩, entries, ?_⟩
  · intro r hr i hi
    rw [entries r hr i hi]
    intro valid
    obtain ⟨t, same, ready', other'⟩ := h.link r hr i hi valid
    exact ⟨t, same, stored.ready.2 ready', other'⟩
  · intro r hr r' hr' i i' hi hi'
    rw [entries r hr i hi, entries r' hr' i' hi']
    exact h.apart r hr r' hr' i i' hi hi'
  · intro r hr' a
    have directory := entries r hr' _ (Vaddr.directoryIndex_lt a)
    by_cases same : r = root ∧ Vaddr.page a = Vaddr.page va
    · obtain ⟨rfl, page⟩ := same
      obtain ⟨index, place⟩ := Vaddr.page_eq_iff.1 page
      have table : tableOf m' r a = tableOf m r va := by rw [tableOf, directory, index, tableOf]
      have there : Linked m' r a := by rwa [Linked, directory, index]
      rw [if_pos ⟨rfl, page⟩, leafAt, if_pos there, table, place,
        stored.word ready (Vaddr.tableIndex_lt va), if_pos ⟨rfl, rfl⟩]
      simp [Option.filter, valid]
    · rw [if_neg same]
      refine leafAt_congr directory ?_
      intro linked'
      obtain ⟨entry', ready', -⟩ := h.tableOf_cases hr' linked'
      rw [stored.word ready' (Vaddr.tableIndex_lt a), if_neg]
      rintro ⟨table, place⟩
      rw [table] at entry'
      obtain ⟨rfl, index⟩ := h.apart r hr' root hr _ _ (Vaddr.directoryIndex_lt a)
        (Vaddr.directoryIndex_lt va) linked' (entry'.trans entry.symm)
      exact same ⟨rfl, Vaddr.page_eq_iff.2 ⟨index, place⟩⟩

/-- What the lookup of a directory entry does: nothing, or it links a table of the supply. -/
theorem directoryEntry_eq (h : Forest roots m) (hr : root ∈ roots) (va : UInt32) :
    directoryEntry root va m =
      if Linked m root va then .ok (word m root (Vaddr.directoryIndex va)) m
      else (do
        let table ← allocTable
        storeWord (directorySlot root va) (PageEntry.make table 1)
        pure (PageEntry.make table 1) : Action M UInt32) m := by
  have entry : loadWord m (directorySlot root va) =
      .ok (word m root (Vaddr.directoryIndex va)) :=
    loadWord_ready h.good (h.root root hr) (Vaddr.directoryIndex_lt va)
  have asked : Action.ask (loadWord · (directorySlot root va)) m = .ok _ m :=
    Action.ask_of_ok entry
  unfold directoryEntry
  rw [Action.bind_of_ok asked]
  by_cases linked : Linked m root va
  · obtain ⟨same, -, -⟩ := h.tableOf_cases hr linked
    rw [if_pos linked, same]
    simp only [PageEntry.valid_link, PageEntry.isLeaf_link, Bool.not_true]
    rfl
  · have invalid : PageEntry.valid (word m root (Vaddr.directoryIndex va)) = false := by
      simpa [Linked] using linked
    rw [if_neg linked, invalid]
    rfl

end Forest

structure Links (roots : Set UInt32) (root va : UInt32) (m m' : M) : Prop where
  forest : Forest roots m'
  ready : ∀ {page}, Ready m page → Ready m' page
  entry : ∀ r ∈ roots, ∀ a, Linked m r a →
    word m' r (Vaddr.directoryIndex a) = word m r (Vaddr.directoryIndex a)
  linked : ∀ r ∈ roots, ∀ a, Linked m' r a ↔
    Linked m r a ∨ r = root ∧ Vaddr.directoryIndex a = Vaddr.directoryIndex va
  leaf : ∀ r ∈ roots, ∀ a, leafAt m' r a = leafAt m r a
  fresh : ¬ Linked m root va → ¬ Ready m (tableOf m' root va)
  other : ∀ p, Ready m p → p ∉ roots → ∀ i : UInt32, i.toNat < 1024 → word m' p i = word m p i

structure Maps (roots : Set UInt32) (root va leaf : UInt32) (m m' : M) : Prop where
  forest : Forest roots m'
  ready : ∀ {page}, Ready m page → Ready m' page
  entry : ∀ r ∈ roots, ∀ a, Linked m r a →
    word m' r (Vaddr.directoryIndex a) = word m r (Vaddr.directoryIndex a)
  linked : ∀ r ∈ roots, ∀ a, Linked m' r a ↔
    Linked m r a ∨ r = root ∧ Vaddr.directoryIndex a = Vaddr.directoryIndex va
  leaf : ∀ r ∈ roots, ∀ a, leafAt m' r a =
    if r = root ∧ Vaddr.page a = Vaddr.page va then some leaf else leafAt m r a
  fresh : ¬ Linked m root va → ¬ Ready m (tableOf m' root va)
  /-- Pages in use that are no tables of `root` are not written. -/
  other : ∀ p, Ready m p → p ∉ roots → (∀ a, Linked m root a → tableOf m root a ≠ p) →
    ∀ i : UInt32, i.toNat < 1024 → word m' p i = word m p i

namespace Forest
variable {roots : Set UInt32} {m : M} {root : UInt32}

/-- After a lookup the directory entry is there, unless the supply ran out. -/
theorem directoryEntry_cases (h : Forest roots m) (hr : root ∈ roots) (va : UInt32) :
    (∃ m', directoryEntry root va m = .error (.refused .outOfFrames) m' ∧ Keeps m m' ∧
      ¬ Linked m root va ∧ allocTable m = .error (.refused .outOfFrames) m') ∨
      ∃ m', directoryEntry root va m = .ok (word m' root (Vaddr.directoryIndex va)) m' ∧
        Links roots root va m m' := by
  have lookup := h.directoryEntry_eq hr va
  by_cases linked : Linked m root va
  · rw [if_pos linked] at lookup
    refine .inr ⟨m, lookup, h, id, fun _ _ _ _ => rfl, fun r _ a => ⟨.inl, ?_⟩, fun _ _ _ => rfl,
      fun missing => absurd linked missing, fun _ _ _ _ _ => rfl⟩
    rintro (there | ⟨rfl, index⟩)
    · exact there
    · rwa [Linked, index]
  rw [if_neg linked] at lookup
  rcases allocTable_good h.good with ⟨m', out, keeps⟩ | ⟨t, m₁, given, keeps, fresh, ready, zero⟩
  · exact .inl ⟨m', lookup.trans (Action.bind_of_error out), keeps, linked, out⟩
  obtain ⟨forest₁, leaves₁⟩ := h.keeps keeps
  have other : t ∉ roots := fun ht => fresh (h.root t ht)
  have entries₁ : ∀ r ∈ roots, ∀ i : UInt32, i.toNat < 1024 → word m₁ r i = word m r i :=
    fun r hr i hi => keeps.word (h.root r hr) hi
  have missing : ¬ Linked m₁ root va := by
    rwa [Linked, entries₁ root hr _ (Vaddr.directoryIndex_lt va)]
  -- a link to the fresh table would have made it one in use
  have unlinked : ∀ r ∈ roots, ∀ i : UInt32, i.toNat < 1024 →
      word m₁ r i ≠ PageEntry.make t 1 := by
    intro r hr i hi same
    rw [entries₁ r hr i hi] at same
    obtain ⟨t', same', ready', -⟩ := h.link r hr i hi (by rw [same]; exact PageEntry.valid_link t)
    have tables := congrArg PageEntry.frame (same.symm.trans same')
    rw [PageEntry.frame_link (aligned_of_ready ready),
      PageEntry.frame_link (aligned_of_ready ready')] at tables
    exact fresh (tables ▸ ready')
  obtain ⟨m', done, stored⟩ := storeWord_ready (PageEntry.make t 1) forest₁.good
    (forest₁.root root hr) (Vaddr.directoryIndex_lt va)
  obtain ⟨forest, entry, leaves⟩ :=
    forest₁.linkTable hr missing ready other zero unlinked stored
  have entries : ∀ r ∈ roots, ∀ a, word m' r (Vaddr.directoryIndex a) =
      if r = root ∧ Vaddr.directoryIndex a = Vaddr.directoryIndex va then PageEntry.make t 1
      else word m r (Vaddr.directoryIndex a) := by
    intro r hr a
    rw [stored.word (forest₁.root r hr) (Vaddr.directoryIndex_lt a),
      entries₁ r hr _ (Vaddr.directoryIndex_lt a)]
  refine .inr ⟨m', ?_, forest, fun hp => stored.ready.2 (keeps.ready hp), ?_, ?_, ?_, ?_, ?_⟩
  · rw [entry]
    exact lookup.trans ((Action.bind_of_ok given).trans (Action.bind_of_ok done))
  · intro r hr a there
    rw [entries r hr a, if_neg]
    rintro ⟨rfl, index⟩
    rw [Linked, index] at there
    exact linked there
  · intro r hr a
    rw [Linked, entries r hr a]
    split
    next new => exact ⟨fun _ => .inr new, fun _ => PageEntry.valid_link t⟩
    next old => exact ⟨.inl, fun there => there.resolve_right old⟩
  · exact fun r hr a => (leaves r hr a).trans (leaves₁ r hr a)
  · intro _
    rwa [tableOf, entry, PageEntry.frame_link (aligned_of_ready ready)]
  · intro p hp apart i hi
    rw [stored.word (keeps.ready hp) hi, if_neg, keeps.word hp hi]
    rintro ⟨rfl, -⟩
    exact apart hr

/-- Mapping an aligned page to an aligned frame sets its leaf, unless the supply ran out. -/
theorem mapPage_cases_of_aligned (h : Forest roots m) (hr : root ∈ roots) {va pa : UInt32}
    (perms : Perms) (hva : Vaddr.aligned va = true) (hpa : Vaddr.aligned pa = true) :
    (∃ m', mapPage root va pa perms m = .error (.refused .outOfFrames) m' ∧ Keeps m m' ∧
      ¬ Linked m root va ∧ allocTable m = .error (.refused .outOfFrames) m') ∨
      ∃ m₁ m', directoryEntry root va m = .ok (word m' root (Vaddr.directoryIndex va)) m₁ ∧
        storeWord (leafSlot (word m' root (Vaddr.directoryIndex va)) va)
          (PageEntry.make pa perms.flags) m₁ = .ok () m' ∧
        mapPage root va pa perms m = .ok () m' ∧
        Maps roots root va (PageEntry.make pa perms.flags) m m' := by
  rw [mapPage_of_aligned hva hpa]
  rcases h.directoryEntry_cases hr va with ⟨m', out, keeps, missing, none⟩ | ⟨m₁, found, links⟩
  · exact .inl ⟨m', Action.bind_of_error out, keeps, missing, none⟩
  have linked : Linked m₁ root va := (links.linked root hr va).2 (.inr ⟨rfl, rfl⟩)
  obtain ⟨-, ready, -⟩ := links.forest.tableOf_cases hr linked
  obtain ⟨m', done, stored⟩ := storeWord_ready (PageEntry.make pa perms.flags)
    links.forest.good ready (Vaddr.tableIndex_lt va)
  obtain ⟨forest, entries, leaves⟩ := links.forest.setLeaf hr linked
    (PageEntry.valid_make perms.flags_lt perms.valid_flags) stored
  have entry := entries root hr _ (Vaddr.directoryIndex_lt va)
  refine .inr ⟨m₁, m', entry ▸ found, entry ▸ done,
    (Action.bind_of_ok found).trans done, forest,
    fun hp => stored.ready.2 (links.ready hp), fun r hr a there => ?_, fun r hr a => ?_,
    fun r hr a => ?_, fun missing => ?_, fun p hp outside apart i hi => ?_⟩
  · rw [entries r hr _ (Vaddr.directoryIndex_lt a), links.entry r hr a there]
  · rw [Linked, entries r hr _ (Vaddr.directoryIndex_lt a)]
    exact links.linked r hr a
  · rw [leaves r hr a, links.leaf r hr a]
  · rw [tableOf, entry]
    exact links.fresh missing
  · rw [stored.word (links.ready hp) hi, if_neg, links.other p hp outside i hi]
    rintro ⟨rfl, -⟩
    by_cases before : Linked m root va
    · refine apart va before ?_
      rw [tableOf, ← links.entry root hr va before, tableOf]
    · exact links.fresh before hp

/-- Mapping a page is refused and changes nothing, or sets its leaf. -/
theorem mapPage_cases (h : Forest roots m) (hr : root ∈ roots) (va pa : UInt32) (perms : Perms) :
    (∃ cause m', mapPage root va pa perms m = .error (.refused cause) m' ∧ Keeps m m' ∧
      ((cause = .unalignedVaddr va ∨ cause = .unalignedPaddr pa) ∧ m' = m ∨
        cause = .outOfFrames ∧ allocTable m = .error (.refused .outOfFrames) m')) ∨
    Vaddr.aligned va = true ∧ Vaddr.aligned pa = true ∧
      ∃ m₁ m', directoryEntry root va m = .ok (word m' root (Vaddr.directoryIndex va)) m₁ ∧
        storeWord (leafSlot (word m' root (Vaddr.directoryIndex va)) va)
          (PageEntry.make pa perms.flags) m₁ = .ok () m' ∧
        mapPage root va pa perms m = .ok () m' ∧
        Maps roots root va (PageEntry.make pa perms.flags) m m' := by
  by_cases hva : Vaddr.aligned va = true
  swap
  · rw [mapPage_of_unaligned_va hva]
    exact .inl ⟨_, m, rfl, .refl h.good, .inl ⟨.inl rfl, rfl⟩⟩
  by_cases hpa : Vaddr.aligned pa = true
  swap
  · rw [mapPage_of_unaligned_pa hva hpa]
    exact .inl ⟨_, m, rfl, .refl h.good, .inl ⟨.inr rfl, rfl⟩⟩
  rcases h.mapPage_cases_of_aligned hr perms hva hpa with ⟨m', refused, keeps, -, out⟩ | mapped
  · exact .inl ⟨_, m', refused, keeps, .inr ⟨rfl, out⟩⟩
  · exact .inr ⟨hva, hpa, mapped⟩

/-- A page that was mapped. -/
theorem maps_of_mapPage (h : Forest roots m) (hr : root ∈ roots) {va pa : UInt32} {perms : Perms}
    {m' : M} (done : mapPage root va pa perms m = .ok () m') :
    Vaddr.aligned va = true ∧ Vaddr.aligned pa = true ∧
      Maps roots root va (PageEntry.make pa perms.flags) m m' := by
  rcases h.mapPage_cases hr va pa perms with
    ⟨cause, m₁, refused, -⟩ | ⟨hva, hpa, m₁, m₂, -, -, same, maps⟩
  · rw [refused] at done
    cases done
  · rw [same] at done
    cases done
    exact ⟨hva, hpa, maps⟩

end Forest

end PocketKernel.Paging
