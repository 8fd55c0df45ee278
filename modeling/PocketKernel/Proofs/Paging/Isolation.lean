import Mathlib
import PocketKernel.Proofs.Paging.Forest

/-!
# Pages of their own

In an `Isolated` forest a page that user code may reach under a root is in use, holds no table and
is reached by user code under no other root and from one page of addresses only. Kernel mappings
may reach it. Mapping pages keeps this, given that a page mapped for user code is one that nothing
has yet; so does whatever is written outside the tables.
-/
namespace PocketKernel

def PageEntry.forUser (flags : UInt32) : Bool := flags / 16 % 2 == 1

namespace PageEntry

theorem forUser_iff {e : UInt32} : forUser e = true ↔ e.toNat / 16 % 2 = 1 := by
  rw [forUser, beq_iff_eq, ← UInt32.toNat_inj, UInt32.toNat_mod, UInt32.toNat_div]
  rfl

theorem forUser_flags (e : UInt32) : forUser (flags e) = forUser e := by
  rw [Bool.eq_iff_iff]
  simp only [forUser_iff, toNat_flags]
  omega

theorem forUser_make {addr f : UInt32} (h : f.toNat < 1024) :
    forUser (make addr f) = forUser f := by
  rw [Bool.eq_iff_iff]
  simp only [forUser_iff, toNat_make h]
  omega

end PageEntry

theorem Perms.forUser_flags (p : Perms) : PageEntry.forUser p.flags = p.user := by
  obtain ⟨r, w, x, u⟩ := p
  revert r w x u
  decide

namespace Paging
open TableView TableMemory LawfulTableMemory
variable {M : Type} [TableMemory M] [LawfulTableMemory M]

def TablePage (roots : Set UInt32) (m : M) (page : UInt32) : Prop :=
  page ∈ roots ∨ ∃ r ∈ roots, ∃ a, Linked m r a ∧ tableOf m r a = page

def UserLeaf (m : M) (root va page : UInt32) : Prop :=
  ∃ leaf, leafAt m root va = some leaf ∧ PageEntry.forUser leaf = true ∧
    PageEntry.frame leaf = page

def UserPage (m : M) (root page : UInt32) : Prop := ∃ va, UserLeaf m root va page

/-- Pages of user code are in use, hold no tables and are those of one root, where they are reached
from one page of addresses. -/
structure Isolated (roots : Set UInt32) (m : M) : Prop where
  forest : Forest roots m
  ready : ∀ r ∈ roots, ∀ p, UserPage m r p → Ready m p
  noTable : ∀ r ∈ roots, ∀ p, UserPage m r p → ¬ TablePage roots m p
  once : ∀ r ∈ roots, ∀ r' ∈ roots, ∀ a a' p, UserLeaf m r a p → UserLeaf m r' a' p →
    r = r' ∧ Vaddr.page a = Vaddr.page a'

theorem Isolated.apart {roots : Set UInt32} {m : M} (h : Isolated roots m) {r r' : UInt32}
    (hr : r ∈ roots) (hr' : r' ∈ roots) {p : UInt32} (user : UserPage m r p)
    (user' : UserPage m r' p) : r = r' := by
  obtain ⟨a, leaf⟩ := user
  obtain ⟨a', leaf'⟩ := user'
  exact (h.once r hr r' hr' a a' p leaf leaf').1

theorem Forest.ready_of_tablePage {roots : Set UInt32} {m : M} (h : Forest roots m)
    {page : UInt32} (table : TablePage roots m page) : Ready m page := by
  rcases table with root | ⟨r, hr, a, linked, rfl⟩
  · exact h.root page root
  · exact (h.tableOf_cases hr linked).2.1

theorem userPage_congr {m m' : M} {root : UInt32} (same : ∀ a, leafAt m' root a = leafAt m root a)
    (page : UInt32) : UserPage m' root page ↔ UserPage m root page := by
  simp only [UserPage, UserLeaf, same]

theorem tablePage_congr {roots : Set UInt32} {m m' : M}
    (same : ∀ r ∈ roots, ∀ a,
      word m' r (Vaddr.directoryIndex a) = word m r (Vaddr.directoryIndex a)) (page : UInt32) :
    TablePage roots m' page ↔ TablePage roots m page := by
  refine or_congr_right (exists_congr fun r => and_congr_right fun hr => exists_congr fun a => ?_)
  rw [Linked, tableOf, same r hr a, Linked, tableOf]

/-- Of the pages in use, mapping a page makes none a table. -/
theorem Maps.tablePage_of_ready {roots : Set UInt32} {m m' : M} {root va leaf : UInt32}
    (mapped : Maps roots root va leaf m m') {p : UInt32} (table : TablePage roots m' p)
    (used : Ready m p) : TablePage roots m p := by
  rcases table with hp | ⟨r, hr, a, linked, rfl⟩
  · exact .inl hp
  have older (there : Linked m r a) : TablePage roots m (tableOf m' r a) := by
    refine .inr ⟨r, hr, a, there, ?_⟩
    rw [tableOf, ← mapped.entry r hr a there, tableOf]
  rcases (mapped.linked r hr a).1 linked with there | ⟨rfl, index⟩
  · exact older there
  by_cases before : Linked m r va
  · refine older ?_
    rwa [Linked, index]
  · refine absurd used ?_
    rw [tableOf, index]
    exact mapped.fresh before

structure SameTables (roots : Set UInt32) (m m' : M) : Prop where
  leaf : ∀ r ∈ roots, ∀ a, leafAt m' r a = leafAt m r a
  table : ∀ p, TablePage roots m' p ↔ TablePage roots m p

namespace SameTables
variable {roots : Set UInt32} {m m' m'' : M}

theorem refl (roots : Set UInt32) (m : M) : SameTables roots m m :=
  ⟨fun _ _ _ => rfl, fun _ => .rfl⟩

theorem trans (h : SameTables roots m m') (h' : SameTables roots m' m'') :
    SameTables roots m m'' :=
  ⟨fun r hr a => (h'.leaf r hr a).trans (h.leaf r hr a), fun p => (h'.table p).trans (h.table p)⟩

theorem user (h : SameTables roots m m') {r : UInt32} (hr : r ∈ roots) (p : UInt32) :
    UserPage m' r p ↔ UserPage m r p :=
  userPage_congr (h.leaf r hr) p

end SameTables

namespace Isolated
variable {roots : Set UInt32} {m m' : M}

/-- Only the tables matter: other pages may be written. -/
theorem of_tables (h : Isolated roots m) (good : Good m') (ready : ∀ {p}, Ready m p → Ready m' p)
    (same : ∀ p, TablePage roots m p → ∀ i : UInt32, i.toNat < 1024 → word m' p i = word m p i) :
    Isolated roots m' ∧ SameTables roots m m' := by
  have entries : ∀ r ∈ roots, ∀ i : UInt32, i.toNat < 1024 → word m' r i = word m r i :=
    fun r hr => same r (.inl hr)
  have tables : SameTables roots m m' := by
    refine ⟨fun r hr a => ?_, tablePage_congr fun r hr a => ?_⟩
    · refine leafAt_congr (entries r hr _ (Vaddr.directoryIndex_lt a)) ?_
      intro linked
      exact same _ (.inr ⟨r, hr, a, linked, rfl⟩) _ (Vaddr.tableIndex_lt a)
    · exact entries r hr _ (Vaddr.directoryIndex_lt a)
  refine ⟨⟨⟨good, fun r hr => ready (h.forest.root r hr), fun r hr i hi => ?_, ?_⟩, ?_, ?_, ?_⟩,
    tables⟩
  · rw [entries r hr i hi]
    intro valid
    obtain ⟨t, entry, used, other⟩ := h.forest.link r hr i hi valid
    exact ⟨t, entry, ready used, other⟩
  · intro r hr r' hr' i i' hi hi'
    rw [entries r hr i hi, entries r' hr' i' hi']
    exact h.forest.apart r hr r' hr' i i' hi hi'
  · intro r hr p user
    exact ready (h.ready r hr p ((tables.user hr p).1 user))
  · intro r hr p user table
    exact h.noTable r hr p ((tables.user hr p).1 user) ((tables.table p).1 table)
  · intro r hr r' hr' a a' p user user'
    rw [UserLeaf, tables.leaf r hr a] at user
    rw [UserLeaf, tables.leaf r' hr' a'] at user'
    exact h.once r hr r' hr' a a' p user user'

theorem keeps (h : Isolated roots m) (kept : Keeps m m') :
    Isolated roots m' ∧ SameTables roots m m' :=
  h.of_tables kept.good kept.ready fun _ table _ hi =>
    kept.word (h.forest.ready_of_tablePage table) hi

/-- A fresh page of zeros becomes one more root. -/
theorem insert_root (h : Isolated roots m) {root : UInt32} (kept : Keeps m m')
    (fresh : ¬ Ready m root) (ready : Ready m' root)
    (zero : ∀ i : UInt32, i.toNat < 1024 → word m' root i = 0) :
    Isolated (insert root roots) m' := by
  obtain ⟨old, same⟩ := h.keeps kept
  have missing : ∀ a, ¬ Linked m' root a := by
    intro a
    rw [Linked, zero _ (Vaddr.directoryIndex_lt a)]
    decide
  have noUser : ∀ p, ¬ UserPage m' root p := by
    rintro p ⟨va, leaf, found, -⟩
    rw [leafAt, if_neg (missing va)] at found
    cases found
  refine ⟨⟨kept.good, ?_, ?_, ?_⟩, ?_, ?_, ?_⟩
  · rintro r (rfl | hr)
    · exact ready
    · exact old.forest.root r hr
  · rintro r (rfl | hr) i hi valid
    · rw [zero i hi] at valid
      cases valid
    · obtain ⟨t, entry, used, other⟩ := old.forest.link r hr i hi valid
      refine ⟨t, entry, used, ?_⟩
      rintro (rfl | ht)
      · rw [kept.word (h.forest.root r hr) hi] at entry valid
        obtain ⟨t', entry', used', -⟩ := h.forest.link r hr i hi valid
        have tables := congrArg PageEntry.frame (entry.symm.trans entry')
        rw [PageEntry.frame_link (aligned_of_ready used),
          PageEntry.frame_link (aligned_of_ready used')] at tables
        exact fresh (tables ▸ used')
      · exact other ht
  · rintro r (rfl | hr) r' (rfl | hr') i i' hi hi' valid same
    · rw [zero i hi] at valid
      cases valid
    · rw [zero i hi] at valid
      cases valid
    · rw [same, zero i' hi'] at valid
      cases valid
    · exact old.forest.apart r hr r' hr' i i' hi hi' valid same
  · rintro r (rfl | hr) p user
    · exact absurd user (noUser p)
    · exact old.ready r hr p user
  · rintro r (rfl | hr) p user table
    · exact absurd user (noUser p)
    · rcases table with (rfl | hp) | ⟨r', rfl | hr', a, linked, table⟩
      · exact fresh (h.ready r hr p ((same.user hr p).1 user))
      · exact old.noTable r hr p user (.inl hp)
      · exact missing a linked
      · exact old.noTable r hr p user (.inr ⟨r', hr', a, linked, table⟩)
  · rintro r (rfl | hr) r' (rfl | hr') a a' p user user'
    · exact absurd ⟨a, user⟩ (noUser p)
    · exact absurd ⟨a, user⟩ (noUser p)
    · exact absurd ⟨a', user'⟩ (noUser p)
    · exact old.once r hr r' hr' a a' p user user'

/-- A page is mapped, if for user code then one that nothing has. -/
theorem maps (h : Isolated roots m) {root va leaf : UInt32}
    (mapped : Maps roots root va leaf m m')
    (own : PageEntry.forUser leaf = true → Ready m (PageEntry.frame leaf) ∧
      ¬ TablePage roots m (PageEntry.frame leaf) ∧
      ∀ r ∈ roots, ¬ UserPage m r (PageEntry.frame leaf)) : Isolated roots m' := by
  have users : ∀ r ∈ roots, ∀ a p, UserLeaf m' r a p → UserLeaf m r a p ∨
      (r = root ∧ Vaddr.page a = Vaddr.page va) ∧ PageEntry.forUser leaf = true ∧
        PageEntry.frame leaf = p := by
    rintro r hr' a p ⟨leaf', found, user, frame⟩
    rw [mapped.leaf r hr' a] at found
    split at found
    next new =>
      cases found
      exact .inr ⟨new, user, frame⟩
    next => exact .inl ⟨leaf', found, user, frame⟩
  have before : ∀ r ∈ roots, ∀ p, UserPage m' r p → Ready m p ∧ ¬ TablePage roots m p := by
    rintro r hr' p ⟨a, user⟩
    rcases users r hr' a p user with old | ⟨-, forUser, rfl⟩
    · exact ⟨h.ready r hr' p ⟨a, old⟩, h.noTable r hr' p ⟨a, old⟩⟩
    · exact ⟨(own forUser).1, (own forUser).2.1⟩
  refine ⟨mapped.forest, fun r hr' p user => ?_, fun r hr' p user table => ?_, ?_⟩
  · exact mapped.ready (before r hr' p user).1
  · obtain ⟨used, noTable⟩ := before r hr' p user
    exact noTable (mapped.tablePage_of_ready table used)
  · intro r hr' r' hr'' a a' p user user'
    rcases users r hr' a p user with old | ⟨new, forUser, rfl⟩
    · rcases users r' hr'' a' p user' with old' | ⟨-, forUser, rfl⟩
      · exact h.once r hr' r' hr'' a a' p old old'
      · exact absurd ⟨a, old⟩ ((own forUser).2.2 r hr')
    · rcases users r' hr'' a' _ user' with old' | ⟨new', -, -⟩
      · exact absurd ⟨a', old'⟩ ((own forUser).2.2 r' hr'')
      · exact ⟨new.1.trans new'.1.symm, new.2.trans new'.2.symm⟩

/-- Pages of the kernel may be mapped to anything. -/
theorem mapPage (h : Isolated roots m) {root va pa : UInt32} {perms : Perms} (hr : root ∈ roots)
    (kernel : perms.user = false) (done : Paging.mapPage root va pa perms m = .ok () m') :
    Isolated roots m' := by
  obtain ⟨-, -, mapped⟩ := h.forest.maps_of_mapPage hr done
  refine h.maps mapped ?_
  intro forUser
  rw [PageEntry.forUser_make perms.flags_lt, Perms.forUser_flags, kernel] at forUser
  cases forUser

theorem mapPages (h : Isolated roots m) {root : UInt32} {perms : Perms} (hr : root ∈ roots)
    (kernel : perms.user = false) {count : Nat} {va pa : UInt32}
    (done : Paging.mapPages root perms count va pa m = .ok () m') : Isolated roots m' := by
  induction count generalizing m va pa with
  | zero =>
    cases done
    exact h
  | succ count ih =>
    obtain ⟨⟨⟩, m₁, first, rest⟩ := Action.bind_eq_ok.1 done
    exact ih (h.mapPage hr kernel first) rest

end Isolated

end Paging

end PocketKernel
