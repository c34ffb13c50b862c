import Mathlib.Data.List.Perm.Subperm
import Mathlib.Data.List.Nodup
import Mathlib.Data.List.Range
import Mathlib.Logic.Function.Basic

/-!
# Trees of nodes in memory

A C program builds a tree out of nodes it allocates one by one, links them by
their addresses, and gives a whole tree back by freeing its root, the children
first. Addresses are numbered in the order they are handed out and never
handed out again, so what is gone stays gone, and a use of a node that is gone
has no result.

Who has to free what is a matter of the program's variables. `Roots s as` says
that the trees at `as` are all there is: they lie apart, every node that is
not in one of them has been freed, and freed once. The rules below say what
allocating, linking and freeing do to it. A program is in order if it ends
with `Roots s []`, and a tree that is still among the roots then is a leak.
-/

universe u

structure Node (V K : Type u) where
  value : V
  /-- the addresses of the children, each under a name -/
  child : List (K × Nat)

structure Nodes (V K : Type u) where
  node : Nat → Option (Node V K)
  /-- how many have been handed out -/
  made : Nat
  /-- how often each has been freed -/
  freed : Nat → Nat

namespace Nodes

variable {V K R : Type u}

def empty : Nodes V K := ⟨fun _ => none, 0, fun _ => 0⟩

/-- A new node with no children; its address is `s.made`. -/
def new (s : Nodes V K) (x : V) : Nodes V K :=
  { s with node := Function.update s.node s.made (some ⟨x, []⟩), made := s.made + 1 }

def free (s : Nodes V K) (a : Nat) : Option (Nodes V K) :=
  (s.node a).map fun _ =>
    { s with
      node := Function.update s.node a none
      freed := Function.update s.freed a (s.freed a + 1) }

def put (s : Nodes V K) (a : Nat) (n : Node V K) : Nodes V K :=
  { s with node := Function.update s.node a (some n) }

/-- `b` becomes the last child of `a`. -/
def link (s : Nodes V K) (a : Nat) (k : K) (b : Nat) : Option (Nodes V K) :=
  (s.node a).map fun n => s.put a { n with child := n.child ++ [(k, b)] }

/-- Frees a tree of at most this height, the children in their order and then
the node. -/
def drop : Nat → Nodes V K → Nat → Option (Nodes V K)
  | 0, _, _ => none
  | height + 1, s, a => do
      let n ← s.node a
      let s ← n.child.foldlM (fun s c => drop height s c.2) s
      s.free a

/-- Reads a tree of at most this height from the leaves up. -/
def fold (f : V → List (K × R) → R) : Nat → Nodes V K → Nat → Option R
  | 0, _, _ => none
  | height + 1, s, a => do
      let n ← s.node a
      let rs ← n.child.mapM fun c => (fold f height s c.2).map fun r => (c.1, r)
      some (f n.value rs)

/-! ## What a tree takes up -/

/-- The tree at this address, and the addresses in it in the order `drop` frees
them. -/
inductive Tree (s : Nodes V K) : Nat → List Nat → Prop
  | node {a : Nat} {n : Node V K} (T : Nat → List Nat) (hnode : s.node a = some n)
      (hchild : ∀ c ∈ n.child, Tree s c.2 (T c.2)) :
      Tree s a (n.child.flatMap (fun c => T c.2) ++ [a])

variable {s s' : Nodes V K} {a b d t height : Nat} {k : K} {x : V} {as ts us : List Nat}

theorem length_le_flatMap {α : Type u} {l : List α} {c : α} (T : α → List Nat) (hc : c ∈ l) :
    (T c).length ≤ (l.flatMap T).length := by
  rw [List.flatMap_def]
  exact (List.sublist_flatten_of_mem (List.mem_map_of_mem hc)).length_le

theorem exists_mapM {α : Type u} {l : List α} {g : α → Option R} (h : ∀ c ∈ l, ∃ r, g c = some r) :
    ∃ rs, l.mapM g = some rs := by
  induction l with
  | nil => exact ⟨[], rfl⟩
  | cons c l ih =>
      obtain ⟨r, hr⟩ := h c List.mem_cons_self
      obtain ⟨rs, hrs⟩ := ih fun c hc => h c (List.mem_cons_of_mem _ hc)
      refine ⟨r :: rs, ?_⟩
      rw [List.mapM_cons, hr, hrs]
      rfl

theorem Tree.root_mem (h : Tree s a ts) : a ∈ ts := by
  cases h with
  | node T hnode hchild => exact List.mem_append_right _ List.mem_cons_self

theorem Tree.alive (h : Tree s a ts) : ∀ t ∈ ts, (s.node t).isSome := by
  induction h with
  | node T hnode hchild ih =>
      intro t ht
      cases List.mem_append.1 ht with
      | inl hin =>
          obtain ⟨c, hc, hct⟩ := List.mem_flatMap.1 hin
          exact ih c hc t hct
      | inr hroot =>
          rw [List.mem_singleton.1 hroot, hnode]
          rfl

/-- A tree is made of its own nodes and no others. -/
theorem Tree.congr (h : Tree s a ts) (hsame : ∀ t ∈ ts, s'.node t = s.node t) : Tree s' a ts := by
  induction h with
  | @node a n T hnode hchild ih =>
      refine .node T ?_ fun c hc => ih c hc fun t ht => ?_
      · rw [hsame a (List.mem_append_right _ List.mem_cons_self), hnode]
      · exact hsame t (List.mem_append_left _ (List.mem_flatMap.2 ⟨c, hc, ht⟩))

theorem Tree.fold (f : V → List (K × R) → R) (h : Tree s a ts)
    (hheight : ts.length ≤ height) : ∃ r, Nodes.fold f height s a = some r := by
  induction h generalizing height with
  | @node a n T hnode hchild ih =>
      rw [List.length_append, List.length_singleton] at hheight
      obtain ⟨m, rfl⟩ : ∃ m, height = m + 1 := ⟨height - 1, by omega⟩
      have hkid : ∀ c ∈ n.child, ∃ r, Nodes.fold f m s c.2 = some r := by
        intro c hc
        have hle : (T c.2).length ≤ (n.child.flatMap fun c => T c.2).length :=
          length_le_flatMap (fun c => T c.2) hc
        exact ih c hc (by omega)
      obtain ⟨rs, hrs⟩ := exists_mapM (g := fun c : K × Nat =>
        (Nodes.fold f m s c.2).map fun r => (c.1, r)) fun c hc => by
          obtain ⟨r, hr⟩ := hkid c hc
          exact ⟨(c.1, r), by rw [hr, Option.map_some]⟩
      refine ⟨f n.value rs, ?_⟩
      rw [Nodes.fold, hnode]
      simp only [Option.bind_eq_bind, Option.bind_some]
      rw [hrs, Option.bind_some]

/-! ## Freeing a tree -/

/-- The nodes at these addresses are freed. -/
def without (s : Nodes V K) (ts : List Nat) : Nodes V K :=
  { s with
    node := fun t => if t ∈ ts then none else s.node t
    freed := fun t => if t ∈ ts then s.freed t + 1 else s.freed t }

theorem without_nil : s.without [] = s := by
  simp [without]

theorem without_node (h : t ∉ ts) : (s.without ts).node t = s.node t := if_neg h

theorem without_append (hdisjoint : ts.Disjoint us) :
    (s.without ts).without us = s.without (ts ++ us) := by
  simp only [without, Nodes.mk.injEq, true_and]
  constructor
  · funext t
    by_cases hu : t ∈ us <;> by_cases ht : t ∈ ts <;> simp [hu, ht]
  · funext t
    by_cases ht : t ∈ ts
    · have hu : t ∉ us := fun hu => hdisjoint ht hu
      simp [ht, hu]
    · simp [ht]

theorem free_eq (h : (s.node a).isSome) : s.free a = some (s.without [a]) := by
  obtain ⟨n, hn⟩ := Option.isSome_iff_exists.1 h
  rw [free, hn, Option.map_some, Option.some.injEq]
  simp only [without, List.mem_singleton, Nodes.mk.injEq, true_and]
  constructor
  · funext t
    rw [Function.update_apply]
  · funext t
    rw [Function.update_apply]
    split
    · next h => rw [h]
    · rfl

/-- Freeing a tree frees its nodes, each once, and nothing else. -/
theorem Tree.drop (h : Tree s a ts) (hnodup : ts.Nodup) (hheight : ts.length ≤ height)
    (hsame : ∀ t ∈ ts, s'.node t = s.node t) :
    Nodes.drop height s' a = some (s'.without ts) := by
  induction h generalizing s' height with
  | @node a n T hnode hchild ih =>
      rw [List.length_append, List.length_singleton] at hheight
      obtain ⟨m, rfl⟩ : ∃ m, height = m + 1 := ⟨height - 1, by omega⟩
      -- the children that are left, in the memory that the others have been freed from
      have hkids : ∀ cs : List (K × Nat), (∀ c ∈ cs, c ∈ n.child) →
          (cs.flatMap fun c => T c.2).Nodup → ∀ r : Nodes V K,
          (∀ t ∈ cs.flatMap fun c => T c.2, r.node t = s.node t) →
          cs.foldlM (fun s c => Nodes.drop m s c.2) r =
            some (r.without (cs.flatMap fun c => T c.2)) := by
        intro cs
        induction cs with
        | nil =>
            intro _ _ r _
            rw [List.foldlM_nil, List.flatMap_nil, without_nil]
            rfl
        | cons c cs ihcs =>
            intro hin hnd r hr
            rw [List.flatMap_cons] at hnd hr
            obtain ⟨hndc, hndcs, hdisjoint⟩ := List.nodup_append'.1 hnd
            have hlen : (T c.2).length ≤ (n.child.flatMap fun c => T c.2).length :=
              length_le_flatMap (fun c => T c.2) (hin c List.mem_cons_self)
            have hfirst : Nodes.drop m r c.2 = some (r.without (T c.2)) :=
              ih c (hin c List.mem_cons_self) hndc (by omega)
                fun t ht => hr t (List.mem_append_left _ ht)
            rw [List.foldlM_cons, hfirst, Option.bind_eq_bind, Option.bind_some, List.flatMap_cons,
              ← without_append hdisjoint]
            refine ihcs (fun c hc => hin c (List.mem_cons_of_mem _ hc)) hndcs _ fun t ht => ?_
            have hnot : t ∉ T c.2 := fun htc => hdisjoint htc ht
            rw [without_node hnot]
            exact hr t (List.mem_append_right _ ht)
      obtain ⟨hndkids, -, hdisjoint⟩ := List.nodup_append'.1 hnodup
      have hroot : s'.node a = some n := by
        rw [hsame a (List.mem_append_right _ List.mem_cons_self), hnode]
      have hrest := hkids n.child (fun _ hc => hc) hndkids s'
        fun t ht => hsame t (List.mem_append_left _ ht)
      have hnot : a ∉ n.child.flatMap fun c => T c.2 := fun ha =>
        hdisjoint ha List.mem_cons_self
      have halive : ((s'.without (n.child.flatMap fun c => T c.2)).node a).isSome := by
        rw [without_node hnot, hroot]
        rfl
      rw [Nodes.drop, hroot, Option.bind_eq_bind, Option.bind_some, hrest, Option.bind_eq_bind,
        Option.bind_some, free_eq halive, without_append hdisjoint]

/-! ## Linking -/

theorem put_self {n : Node V K} : (s.put a n).node a = some n := Function.update_self ..

theorem put_of_ne {n : Node V K} (h : t ≠ a) : (s.put a n).node t = s.node t :=
  Function.update_of_ne h ..

theorem Tree.put {n : Node V K} (h : Tree s a ts) (hnot : d ∉ ts) : Tree (s.put d n) a ts := by
  refine h.congr fun t ht => put_of_ne fun htd => ?_
  rw [htd] at ht
  exact hnot ht

/-- Two trees that lie apart have different roots. -/
theorem Tree.ne (ha : Tree s a ts) (hb : Tree s b us) (hdisjoint : ts.Disjoint us) : a ≠ b := by
  intro hab
  rw [hab] at ha
  exact hdisjoint ha.root_mem hb.root_mem

/-- What has grown by `us` inside a list has grown by it at the end. -/
theorem perm_grown {α : Type u} {xs xs' rest us : List α} (h : xs'.Perm (xs ++ us)) :
    (xs' ++ rest).Perm (xs ++ rest ++ us) := by
  refine (h.append_right rest).trans ?_
  rw [List.append_assoc, List.append_assoc]
  exact List.perm_append_comm.append_left _

/-- A tree whose root gets another for a last child takes up what both did. -/
theorem Tree.link_root {n : Node V K} (h : Tree s a ts) (hnodup : ts.Nodup) (hb : Tree s b us)
    (hdisjoint : ts.Disjoint us) (hnode : s.node a = some n) :
    ∃ ts', ts'.Perm (ts ++ us) ∧ Tree (s.put a { n with child := n.child ++ [(k, b)] }) a ts' := by
  cases h with
  | node T hroot hchild =>
      rw [hnode] at hroot
      cases hroot
      obtain ⟨-, -, hout⟩ := List.nodup_append'.1 hnodup
      have hne : ∀ c ∈ n.child, c.2 ≠ b := fun c hc => (hchild c hc).ne hb fun t ht =>
        hdisjoint (List.mem_append_left _ (List.mem_flatMap.2 ⟨c, hc, ht⟩))
      have hT : (n.child ++ [(k, b)]).flatMap (fun c => Function.update T b us c.2) =
          n.child.flatMap (fun c => T c.2) ++ us := by
        rw [List.flatMap_append, List.flatMap_singleton, Function.update_self,
          List.flatMap_congr fun c hc => Function.update_of_ne (hne c hc) us T]
      refine ⟨n.child.flatMap (fun c => T c.2) ++ us ++ [a], perm_grown (.refl _), ?_⟩
      rw [← hT]
      refine .node (Function.update T b us) put_self fun c hc => ?_
      cases List.mem_append.1 hc with
      | inl hold =>
          rw [Function.update_of_ne (hne c hold)]
          refine (hchild c hold).put fun hmem => ?_
          exact hout (List.mem_flatMap.2 ⟨c, hold, hmem⟩) List.mem_cons_self
      | inr hnew =>
          rw [List.mem_singleton.1 hnew, Function.update_self]
          exact hb.put fun hmem => hdisjoint (List.mem_append_right _ List.mem_cons_self) hmem

/-- The same anywhere in the tree: it is the root, or it is in the tree of one
child and the others stay as they are. -/
theorem Tree.link {n : Node V K} (h : Tree s a ts) (hnodup : ts.Nodup) (hd : d ∈ ts)
    (hb : Tree s b us) (hdisjoint : ts.Disjoint us) (hnode : s.node d = some n) :
    ∃ ts', ts'.Perm (ts ++ us) ∧ Tree (s.put d { n with child := n.child ++ [(k, b)] }) a ts' := by
  induction h with
  | @node a m T hroot hchild ih =>
      by_cases had : a = d
      · subst had
        exact (Tree.node T hroot hchild).link_root hnodup hb hdisjoint hnode
      have hin : d ∈ m.child.flatMap fun c => T c.2 := by
        cases List.mem_append.1 hd with
        | inl hin => exact hin
        | inr hin => exact absurd (List.mem_singleton.1 hin).symm had
      obtain ⟨c, hc, hdc⟩ := List.mem_flatMap.1 hin
      obtain ⟨l, r, hsplit⟩ := List.append_of_mem hc
      have hperm : m.child.Perm (c :: (l ++ r)) := by
        rw [hsplit]
        exact List.perm_middle
      have hflat : ((c :: (l ++ r)).flatMap fun e => T e.2) =
          T c.2 ++ (l ++ r).flatMap fun e => T e.2 := List.flatMap_cons
      have hnd := (hperm.flatMap_right fun e => T e.2).nodup (List.nodup_append'.1 hnodup).1
      rw [hflat] at hnd
      obtain ⟨hndc, -, hapart⟩ := List.nodup_append'.1 hnd
      have hmem : ∀ e ∈ l ++ r, e ∈ m.child := fun e he =>
        hperm.mem_iff.2 (List.mem_cons_of_mem _ he)
      have hout : ∀ e ∈ l ++ r, d ∉ T e.2 := fun e he hde =>
        hapart hdc (List.mem_flatMap.2 ⟨e, he, hde⟩)
      have hne : ∀ e ∈ l ++ r, e.2 ≠ c.2 := fun e he =>
        ((hchild c hc).ne (hchild e (hmem e he)) fun t htc hte =>
          hapart htc (List.mem_flatMap.2 ⟨e, he, hte⟩)).symm
      obtain ⟨ts', hperm', htree⟩ := ih c hc hndc hdc
        fun t ht => hdisjoint (List.mem_append_left _ (List.mem_flatMap.2 ⟨c, hc, ht⟩))
      have hT : (c :: (l ++ r)).flatMap (fun e => Function.update T c.2 ts' e.2) =
          ts' ++ (l ++ r).flatMap fun e => T e.2 := by
        rw [List.flatMap_cons, Function.update_self,
          List.flatMap_congr fun e he => Function.update_of_ne (hne e he) ts' T]
      refine ⟨m.child.flatMap (fun e => Function.update T c.2 ts' e.2) ++ [a], ?_, ?_⟩
      · have hnew : (m.child.flatMap fun e => Function.update T c.2 ts' e.2).Perm
            (ts' ++ (l ++ r).flatMap fun e => T e.2) := by
          rw [← hT]
          exact hperm.flatMap_right _
        have hold : (T c.2 ++ (l ++ r).flatMap fun e => T e.2).Perm
            (m.child.flatMap fun e => T e.2) := by
          rw [← hflat]
          exact (hperm.flatMap_right _).symm
        exact perm_grown (hnew.trans ((perm_grown hperm').trans (hold.append_right us)))
      · refine .node (Function.update T c.2 ts') ?_ fun e he => ?_
        · rw [put_of_ne had, hroot]
        · cases List.mem_cons.1 (hperm.mem_iff.1 he) with
          | inl heq =>
              rw [heq, Function.update_self]
              exact htree
          | inr hrest =>
              rw [Function.update_of_ne (hne e hrest)]
              exact (hchild e he).put (hout e hrest)

/-! ## The roots -/

/-- The nodes at these addresses are all there are, and all others that were
made have been freed once. -/
structure Covers (s : Nodes V K) (ts : List Nat) : Prop where
  nodup : ts.Nodup
  made : ∀ t ∈ ts, t < s.made
  alive : ∀ t, (s.node t).isSome ↔ t ∈ ts
  freed : ∀ t, s.freed t = if t < s.made ∧ t ∉ ts then 1 else 0

theorem Covers.perm (h : Covers s ts) (hperm : ts.Perm us) : Covers s us where
  nodup := hperm.nodup h.nodup
  made t ht := h.made t (hperm.mem_iff.2 ht)
  alive t := (h.alive t).trans hperm.mem_iff
  freed t := by
    rw [h.freed t]
    simp only [hperm.mem_iff]

theorem Covers.length_le (h : Covers s (ts ++ us)) : ts.length ≤ s.made := by
  have hsub : ts.Subperm (List.range s.made) :=
    List.subperm_of_subset (List.nodup_append'.1 h.nodup).1 fun t ht =>
      List.mem_range.2 (h.made t (List.mem_append_left _ ht))
  rw [← List.length_range (n := s.made)]
  exact hsub.length_le

theorem Covers.new (h : Covers s ts) : Covers (s.new x) (s.made :: ts) where
  nodup := List.nodup_cons.2 ⟨fun hin => Nat.lt_irrefl _ (h.made _ hin), h.nodup⟩
  made t ht := by
    show t < s.made + 1
    cases List.mem_cons.1 ht with
    | inl heq => omega
    | inr hin => exact Nat.lt_succ_of_lt (h.made t hin)
  alive t := by
    rw [List.mem_cons]
    by_cases ht : t = s.made
    · rw [ht]
      simp [Nodes.new]
    · simp [Nodes.new, ht, h.alive t]
  freed t := by
    show s.freed t = if t < s.made + 1 ∧ t ∉ s.made :: ts then 1 else 0
    rw [h.freed t]
    simp only [List.mem_cons, not_or]
    refine if_congr ⟨fun ⟨hlt, hnot⟩ => ⟨by omega, by omega, hnot⟩, ?_⟩ rfl rfl
    exact fun ⟨hlt, hne, hnot⟩ => ⟨by omega, hnot⟩

theorem Covers.without (h : Covers s (ts ++ us)) : Covers (s.without ts) us where
  nodup := (List.nodup_append'.1 h.nodup).2.1
  made t ht := h.made t (List.mem_append_right _ ht)
  alive t := by
    have hdisjoint := (List.nodup_append'.1 h.nodup).2.2
    by_cases ht : t ∈ ts
    · have hu : t ∉ us := fun hu => hdisjoint ht hu
      simp [Nodes.without, ht, hu]
    · rw [without_node ht, h.alive t, List.mem_append]
      simp [ht]
  freed t := by
    have hdisjoint := (List.nodup_append'.1 h.nodup).2.2
    show (if t ∈ ts then s.freed t + 1 else s.freed t) = if t < s.made ∧ t ∉ us then 1 else 0
    rw [h.freed t]
    by_cases ht : t ∈ ts
    · have hlt := h.made t (List.mem_append_left _ ht)
      simp [ht, hlt]
      exact hdisjoint ht
    · simp [ht]

theorem Covers.put {n : Node V K} (h : Covers s ts) (ha : a ∈ ts) : Covers (s.put a n) ts where
  nodup := h.nodup
  made := h.made
  alive t := by
    by_cases ht : t = a
    · rw [ht, put_self]
      simp [ha]
    · rw [put_of_ne ht, h.alive t]
  freed := h.freed

/-- The trees at these addresses lie apart and are all there is. -/
def Roots (s : Nodes V K) (as : List Nat) : Prop :=
  ∃ T : Nat → List Nat, (∀ a ∈ as, Tree s a (T a)) ∧ Covers s (as.flatMap T)

theorem Roots.empty : Roots (empty : Nodes V K) [] := by
  refine ⟨fun _ => [], fun a ha => absurd ha List.not_mem_nil, List.nodup_nil, ?_, ?_, ?_⟩
  · intro t ht
    exact absurd ht List.not_mem_nil
  · intro t
    simp [Nodes.empty]
  · intro t
    simp [Nodes.empty]

theorem Roots.perm {bs : List Nat} (h : Roots s as) (hperm : as.Perm bs) : Roots s bs := by
  obtain ⟨T, htree, hcovers⟩ := h
  exact ⟨T, fun a ha => htree a (hperm.mem_iff.2 ha), hcovers.perm (hperm.flatMap_right T)⟩

theorem Roots.alive (h : Roots s as) (ha : a ∈ as) : (s.node a).isSome := by
  obtain ⟨T, htree, hcovers⟩ := h
  exact (htree a ha).alive a (htree a ha).root_mem

theorem Roots.new (h : Roots s as) (x : V) : Roots (s.new x) (s.made :: as) := by
  obtain ⟨T, htree, hcovers⟩ := h
  have hlt : ∀ a ∈ as, a ≠ s.made := fun a ha => by
    have := hcovers.made a (List.mem_flatMap.2 ⟨a, ha, (htree a ha).root_mem⟩)
    omega
  refine ⟨Function.update T s.made [s.made], fun a ha => ?_, ?_⟩
  · cases List.mem_cons.1 ha with
    | inl heq =>
        rw [heq, Function.update_self]
        exact .node (n := ⟨x, []⟩) T put_self fun c hc => absurd hc List.not_mem_nil
    | inr hin =>
        rw [Function.update_of_ne (hlt a hin)]
        refine (htree a hin).congr fun t ht => put_of_ne fun heq => ?_
        have := hcovers.made t (List.mem_flatMap.2 ⟨a, hin, ht⟩)
        omega
  · rw [List.flatMap_cons, Function.update_self,
      List.flatMap_congr fun a ha => Function.update_of_ne (hlt a ha) [s.made] T]
    exact hcovers.new

/-- Freeing a tree takes it off the roots. -/
theorem Roots.drop (h : Roots s (a :: as)) :
    ∃ ts, Tree s a ts ∧ Nodes.drop s.made s a = some (s.without ts) ∧ Roots (s.without ts) as := by
  obtain ⟨T, htree, hcovers⟩ := h
  rw [List.flatMap_cons] at hcovers
  obtain ⟨hnd, -, hdisjoint⟩ := List.nodup_append'.1 hcovers.nodup
  have ha := htree a List.mem_cons_self
  refine ⟨T a, ha, ha.drop hnd hcovers.length_le fun _ _ => rfl, T, fun b hb => ?_,
    hcovers.without⟩
  refine (htree b (List.mem_cons_of_mem _ hb)).congr fun t ht => without_node fun hin => ?_
  exact hdisjoint hin (List.mem_flatMap.2 ⟨b, hb, ht⟩)

theorem Roots.fold (f : V → List (K × R) → R) (h : Roots s (a :: as)) :
    ∃ r, Nodes.fold f s.made s a = some r := by
  obtain ⟨T, htree, hcovers⟩ := h
  rw [List.flatMap_cons] at hcovers
  exact (htree a List.mem_cons_self).fold f hcovers.length_le

theorem Roots.link_in {n : Node V K} {T : Nat → List Nat}
    (htree : ∀ e ∈ a :: b :: as, Tree s e (T e)) (hcovers : Covers s ((a :: b :: as).flatMap T))
    (hd : d ∈ T a) (hnode : s.node d = some n) :
    Roots (s.put d { n with child := n.child ++ [(k, b)] }) (a :: as) := by
  have hput := hcovers.put (n := { n with child := n.child ++ [(k, b)] })
    (List.mem_flatMap.2 ⟨a, List.mem_cons_self, hd⟩)
  rw [List.flatMap_cons, List.flatMap_cons] at hcovers hput
  obtain ⟨hnda, -, hapart⟩ := List.nodup_append'.1 hcovers.nodup
  have ha := htree a List.mem_cons_self
  have hb := htree b (List.mem_cons_of_mem _ List.mem_cons_self)
  obtain ⟨ts', hperm, htree'⟩ := ha.link (k := k) hnda hd hb
    (fun t hta htb => hapart hta (List.mem_append_left _ htb)) hnode
  have hout : ∀ e ∈ as, (T a).Disjoint (T e) := fun e he t hta hte =>
    hapart hta (List.mem_append_right _ (List.mem_flatMap.2 ⟨e, he, hte⟩))
  have hrest : ∀ e ∈ as, Tree s e (T e) := fun e he =>
    htree e (List.mem_cons_of_mem _ (List.mem_cons_of_mem _ he))
  have hne : ∀ e ∈ as, e ≠ a := fun e he => (ha.ne (hrest e he) (hout e he)).symm
  refine ⟨Function.update T a ts', fun e he => ?_, ?_⟩
  · cases List.mem_cons.1 he with
    | inl heq =>
        rw [heq, Function.update_self]
        exact htree'
    | inr hin =>
        rw [Function.update_of_ne (hne e hin)]
        exact (hrest e hin).put (hout e hin hd)
  · rw [List.flatMap_cons, Function.update_self,
      List.flatMap_congr fun e he => Function.update_of_ne (hne e he) ts' T]
    refine hput.perm ?_
    rw [← List.append_assoc]
    exact hperm.symm.append_right _

theorem put_alive {n : Node V K} (ht : (s.node t).isSome) : ((s.put d n).node t).isSome := by
  by_cases htd : t = d
  · rw [htd, put_self]
    rfl
  · rw [put_of_ne htd, ht]

/-- A root that is linked to another is none any more. -/
theorem Roots.link (h : Roots s (a :: b :: as)) :
    ∃ s', s.link a k b = some s' ∧ Roots s' (a :: as) ∧
      ∀ t, (s.node t).isSome → (s'.node t).isSome := by
  obtain ⟨n, hn⟩ := Option.isSome_iff_exists.1 (h.alive List.mem_cons_self)
  obtain ⟨T, htree, hcovers⟩ := h
  refine ⟨_, by rw [Nodes.link, hn, Option.map_some], ?_, fun t ht => put_alive ht⟩
  exact link_in htree hcovers (htree a List.mem_cons_self).root_mem hn

theorem Roots.lt (h : Roots s as) (ht : (s.node t).isSome) : t < s.made := by
  obtain ⟨T, -, hcovers⟩ := h
  exact hcovers.made t ((hcovers.alive t).1 ht)

theorem new_node (ht : t < s.made) : (s.new x).node t = s.node t :=
  Function.update_of_ne (by omega) ..

theorem Tree.leaf (h : Tree s a ts) (hnode : s.node a = some ⟨x, []⟩) : ts = [a] := by
  cases h with
  | node T hroot hchild =>
      rw [hnode] at hroot
      cases hroot
      rfl

/-- A new node that is linked to any that is alive makes no new root. -/
theorem Roots.leaf (h : Roots s as) (hd : (s.node d).isSome) :
    ∃ s', (s.new x).link d k s.made = some s' ∧ Roots s' as ∧
      ∀ t, (s.node t).isSome → (s'.node t).isSome := by
  have hnew : ∀ t, (s.node t).isSome → ((s.new x).node t).isSome := fun t ht => by
    rw [new_node (h.lt ht), ht]
  have hlt := h.lt hd
  obtain ⟨T, htree, hcovers⟩ := h.new x
  obtain ⟨n, hn⟩ := Option.isSome_iff_exists.1 (hnew d hd)
  have hin : d ∈ as.flatMap T := by
    have hall := (hcovers.alive d).1 (hnew d hd)
    rw [List.flatMap_cons, (htree _ List.mem_cons_self).leaf put_self, List.mem_append,
      List.mem_singleton] at hall
    cases hall with
    | inl heq => omega
    | inr hin => exact hin
  obtain ⟨a, ha, hda⟩ := List.mem_flatMap.1 hin
  obtain ⟨l, r, rfl⟩ := List.append_of_mem ha
  -- the tree that `d` is in, the new one, and the rest
  have hperm : (s.made :: (l ++ a :: r)).Perm (a :: s.made :: (l ++ r)) :=
    (List.perm_middle.cons _).trans (.swap ..)
  refine ⟨_, by rw [Nodes.link, hn, Option.map_some], ?_, fun t ht => put_alive (hnew t ht)⟩
  have hroots := link_in (k := k) (fun e he => htree e (hperm.mem_iff.2 he))
    (hcovers.perm (hperm.flatMap_right T)) hda hn
  exact hroots.perm List.perm_middle.symm

/-- A new node that is freed again leaves what was there. -/
theorem Roots.new_drop (h : Roots s as) (x : V) :
    ∃ s', Nodes.drop (s.new x).made (s.new x) s.made = some s' ∧ Roots s' as ∧
      ∀ t, (s.node t).isSome → (s'.node t).isSome := by
  obtain ⟨ts, htree, hdrop, hroots⟩ := (h.new x).drop
  rw [htree.leaf put_self] at hdrop hroots
  refine ⟨_, hdrop, hroots, fun t ht => ?_⟩
  have hlt := h.lt ht
  rw [without_node (by simp; omega), new_node hlt, ht]

/-- At the end everything has been freed once exactly if no root is left. -/
theorem Roots.freed_once (h : Roots s as) : (∀ t < s.made, s.freed t = 1) ↔ as = [] := by
  obtain ⟨T, htree, hcovers⟩ := h
  constructor
  · intro hall
    cases as with
    | nil => rfl
    | cons a as =>
        have hin : a ∈ (a :: as).flatMap T := List.mem_flatMap.2
          ⟨a, List.mem_cons_self, (htree a List.mem_cons_self).root_mem⟩
        have hone := hall a (hcovers.made a hin)
        rw [hcovers.freed a, if_neg fun hc => hc.2 hin] at hone
        omega
  · intro hnil t ht
    subst hnil
    rw [hcovers.freed t, if_pos ⟨ht, List.not_mem_nil⟩]

end Nodes
