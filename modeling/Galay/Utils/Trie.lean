import Galay.Lib.Bytes
import Mathlib.Data.List.Nodup

/-!
# Tries (`trie.hpp`)

A tree of the words that were added, with a counter at the end of each. Removing a word takes away
the nodes that lead to no other word, so every node but the root leads to one (`Sound`).
-/

namespace Galay.Utils

open List Function

/-- A node. The map of its children is a partial function; in which order the map is gone through
is left open (`TrieOrder`). The counter is an `int` in the source, which the adds of one word do not
overflow (`recount_le`). -/
inductive TrieNode
  | mk (children : UInt8 → Option TrieNode) (isEnd : Bool) (count : Nat)

/-- The keys of a map in the order of its iterator, for the map at the end of each path. -/
structure TrieOrder where
  keys : Bytes → (UInt8 → Option TrieNode) → List UInt8
  nodup path children : (keys path children).Nodup
  mem_keys path children c : c ∈ keys path children ↔ children c ≠ none

/-- The order of the characters. -/
instance : Inhabited TrieOrder where
  default := {
    keys _ children := ((finRange 256).map UInt8.ofFin).filter fun c => (children c).isSome
    nodup _ _ := by
      refine ((nodup_finRange 256).map fun a b h => ?_).filter _
      exact congrArg UInt8.toFin h
    mem_keys _ children c := by
      have hc : c ∈ (finRange 256).map UInt8.ofFin := mem_map.2 ⟨c.toFin, mem_finRange _, rfl⟩
      rw [mem_filter, and_iff_right hc]
      exact Option.isSome_iff_ne_none }

namespace TrieNode

def new : TrieNode := mk (fun _ => none) false 0

def isEnd : TrieNode → Bool
  | mk _ isEnd _ => isEnd

def count : TrieNode → Nat
  | mk _ _ count => count

/-- `children.empty()`. -/
def childless : TrieNode → Bool
  | mk children _ _ => (finRange 256).all fun c => (children (.ofFin c)).isNone

/-- The loop of `add`, and whether the word is new. -/
def add : (word : Bytes) → TrieNode → TrieNode × Bool
  | [], mk children isEnd count => (mk children true (count + 1), !isEnd)
  | c :: word, mk children isEnd count =>
    let (child, isNew) := add word ((children c).getD new)
    (mk (update children c (some child)) isEnd count, isNew)

def findNode : Bytes → TrieNode → Option TrieNode
  | [], node => some node
  | c :: path, mk children _ _ =>
    match children c with
    | none => none
    | some child => findNode path child

/-- The node without the word, and whether its parent should delete it. -/
def removeHelper : Bytes → TrieNode → TrieNode × Bool
  | [], mk children isEnd count =>
    if isEnd then
      let node := mk children false 0
      (node, node.childless)
    else (mk children isEnd count, false)
  | c :: word, mk children isEnd count =>
    match children c with
    | none => (mk children isEnd count, false)
    | some child =>
      match removeHelper word child with
      | (_, true) =>
        let node := mk (update children c none) isEnd count
        (node, !isEnd && node.childless)
      | (child, false) => (mk (update children c (some child)) isEnd count, false)

mutual

def cloneNode : TrieNode → TrieNode
  | mk children isEnd count => mk (fun c => cloneChild (children c)) isEnd count
termination_by structural node => node

def cloneChild : Option TrieNode → Option TrieNode
  | none => none
  | some child => some (cloneNode child)
termination_by structural child => child

end

mutual

def collectWords (order : TrieOrder) : TrieNode → Bytes → List Bytes
  | mk children isEnd _, path =>
    (if isEnd then [path] else []) ++ (order.keys path children).flatMap fun c =>
      collectChild order (children c) (path ++ [c])
termination_by structural node => node

def collectChild (order : TrieOrder) : Option TrieNode → Bytes → List Bytes
  | none, _ => []
  | some child, path => collectWords order child path
termination_by structural child => child

end

end TrieNode

structure TrieTree where
  root : TrieNode := .new
  size : Nat := 0

namespace TrieTree

variable (tree : TrieTree)

def clone : TrieTree := { root := tree.root.cloneNode, size := tree.size }

def add (tree : TrieTree) (word : Bytes) : TrieTree :=
  if word = [] then tree
  else
    let (root, isNew) := tree.root.add word
    { root, size := if isNew then tree.size + 1 else tree.size }

def contains (word : Bytes) : Bool :=
  match tree.root.findNode word with
  | none => false
  | some node => node.isEnd

def startsWith (path : Bytes) : Bool := (tree.root.findNode path).isSome

def query (word : Bytes) : Nat :=
  match tree.root.findNode word with
  | none => 0
  | some node => if node.isEnd then node.count else 0

def remove (word : Bytes) : TrieTree × Bool :=
  if word = [] ∨ tree.contains word = false then (tree, false)
  else ({ root := (tree.root.removeHelper word).1, size := tree.size - 1 }, true)

def getWordsWithPrefix (order : TrieOrder) (path : Bytes) : List Bytes :=
  match tree.root.findNode path with
  | none => []
  | some node => node.collectWords order path

def getAllWords (order : TrieOrder) : List Bytes :=
  tree.root.collectWords order []

end TrieTree

namespace TrieNode

/-- How often a word is in the tree. -/
def wordCount (node : TrieNode) (word : Bytes) : Nat :=
  match node.findNode word with
  | none => 0
  | some node => if node.isEnd then node.count else 0

/-- Words end at the nodes with a counter, and every node below the root leads to one. -/
def Sound (node : TrieNode) : Prop :=
  ∀ path found, node.findNode path = some found →
    (found.isEnd = true ↔ 0 < found.count) ∧ (path ≠ [] → ∃ word, 0 < found.wordCount word)

section Node

variable {children : UInt8 → Option TrieNode} {isEnd : Bool} {count : Nat}

theorem nested {P : TrieNode → Prop}
    (h : ∀ children isEnd count, (∀ c child, children c = some child → P child) →
      P (mk children isEnd count)) (node : TrieNode) : P node := by
  refine @TrieNode.rec P (fun child => ∀ node, child = some node → P node) ?_ ?_ ?_ node
  · exact fun children isEnd count ih => h children isEnd count fun c child hc => ih c child hc
  · exact fun node heq => absurd heq nofun
  intro child ih node heq
  cases heq
  exact ih

variable (node : TrieNode)

theorem cloneNode_eq : node.cloneNode = node := by
  induction node using nested with
  | h children isEnd count ih =>
  rw [cloneNode]
  congr 1
  funext c
  cases hc : children c with
  | none => rfl
  | some child => rw [cloneChild, ih c child hc]

theorem wordCount_nil : (mk children isEnd count).wordCount [] = if isEnd then count else 0 := rfl

theorem wordCount_cons (c : UInt8) (word : Bytes) :
    (mk children isEnd count).wordCount (c :: word) =
      match children c with
      | none => 0
      | some child => child.wordCount word := by
  rw [wordCount, findNode]
  cases children c <;> rfl

theorem findNode_append (path rest : Bytes) :
    node.findNode (path ++ rest) = (node.findNode path).bind (·.findNode rest) := by
  induction path generalizing node with
  | nil => rfl
  | cons c path ih =>
  obtain ⟨children, isEnd, count⟩ := node
  rw [cons_append, findNode, findNode]
  cases children c with
  | none => rfl
  | some child => exact ih child

theorem childless_iff : (mk children isEnd count).childless = true ↔ ∀ c, children c = none := by
  rw [childless, all_eq_true]
  refine ⟨fun h c => ?_, fun h c _ => by rw [h]; rfl⟩
  exact Option.isNone_iff_eq_none.1 (h c.toFin (mem_finRange _))

theorem sound_mk : Sound (mk children isEnd count) ↔ (isEnd = true ↔ 0 < count) ∧
    ∀ c child, children c = some child → Sound child ∧ ∃ word, 0 < child.wordCount word := by
  refine ⟨fun h => ⟨(h [] _ rfl).1, fun c child hc => ⟨fun path found hfound => ?_, ?_⟩⟩,
    fun ⟨hend, hchildren⟩ path found hfound => ?_⟩
  · have hstep := h (c :: path) found (by rw [findNode, hc]; exact hfound)
    exact ⟨hstep.1, fun _ => hstep.2 (cons_ne_nil _ _)⟩
  · exact (h [c] child (by rw [findNode, hc]; rfl)).2 (cons_ne_nil _ _)
  cases path with
  | nil =>
    cases hfound
    exact ⟨hend, fun hne => absurd rfl hne⟩
  | cons c path =>
  rw [findNode] at hfound
  cases hc : children c with
  | none =>
    rw [hc] at hfound
    cases hfound
  | some child =>
  rw [hc] at hfound
  obtain ⟨hsound, hleads⟩ := hchildren c child hc
  refine ⟨(hsound path found hfound).1, fun _ => ?_⟩
  cases path with
  | nil =>
    cases hfound
    exact hleads
  | cons d path => exact (hsound _ found hfound).2 (cons_ne_nil _ _)

theorem Sound.of_find {node found : TrieNode} (h : node.Sound)
    (hfound : node.findNode path = some found) : found.Sound := by
  intro rest other hother
  have hpath : node.findNode (path ++ rest) = some other := by
    rw [findNode_append, hfound]
    exact hother
  obtain ⟨hend, hleads⟩ := h _ other hpath
  exact ⟨hend, fun hne => hleads (append_ne_nil_of_right_ne_nil _ hne)⟩

theorem wordCount_append (path rest : Bytes) :
    node.wordCount (path ++ rest) = match node.findNode path with
      | none => 0
      | some found => found.wordCount rest := by
  rw [wordCount, findNode_append]
  cases node.findNode path <;> rfl

theorem sound_new : Sound new :=
  sound_mk.2 ⟨iff_of_false nofun (Nat.lt_irrefl 0), nofun⟩

theorem wordCount_new (word : Bytes) : new.wordCount word = 0 := by
  cases word <;> rfl

/-- A node without words has nothing to keep it. -/
theorem wordCount_eq_zero_iff (h : Sound (mk children isEnd count)) :
    (∀ word, (mk children isEnd count).wordCount word = 0) ↔
      isEnd = false ∧ (mk children isEnd count).childless = true := by
  obtain ⟨hend, hchildren⟩ := sound_mk.1 h
  rw [childless_iff]
  refine ⟨fun hzero => ⟨?_, fun c => ?_⟩, fun ⟨hfalse, hnone⟩ word => ?_⟩
  · cases isEnd with
    | false => rfl
    | true => exact absurd (hzero []) (Nat.ne_of_gt (hend.1 rfl))
  · cases hc : children c with
    | none => rfl
    | some child =>
    obtain ⟨-, word, hpos⟩ := hchildren c child hc
    have hword := hzero (c :: word)
    rw [wordCount_cons, hc] at hword
    exact absurd hword (Nat.ne_of_gt hpos)
  cases word with
  | nil => rw [wordCount_nil, hfalse, if_neg Bool.false_ne_true]
  | cons c word => rw [wordCount_cons, hnone]

/-- The counters of a node whose child has been replaced. -/
theorem wordCount_update {c : UInt8} {child : Option TrieNode} {n : Nat} {word : Bytes}
    (hchild : ∀ rest, (mk (update children c child) isEnd count).wordCount (c :: rest) =
      update (fun rest => (mk children isEnd count).wordCount (c :: rest)) word n rest)
    (other : Bytes) : (mk (update children c child) isEnd count).wordCount other =
      update (mk children isEnd count).wordCount (c :: word) n other := by
  cases other with
  | nil => rfl
  | cons d rest =>
  by_cases hd : d = c
  · subst hd
    rw [hchild]
    by_cases hrest : rest = word
    · rw [hrest, update_self, update_self]
    rw [update_of_ne hrest, update_of_ne fun heq => hrest (List.cons.inj heq).2]
  rw [update_of_ne fun heq => hd (List.cons.inj heq).1, wordCount_cons, wordCount_cons,
    update_of_ne hd]

variable {node : TrieNode}

theorem add_spec (h : node.Sound) (word : Bytes) : (node.add word).1.Sound ∧
    (∀ other, (node.add word).1.wordCount other =
      update node.wordCount word (node.wordCount word + 1) other) ∧
    ((node.add word).2 = true ↔ node.wordCount word = 0) := by
  induction word generalizing node with
  | nil =>
    obtain ⟨children, isEnd, count⟩ := node
    obtain ⟨hend, hchildren⟩ := sound_mk.1 h
    have hcount : (mk children isEnd count).wordCount [] = count := by
      rw [wordCount_nil]
      cases isEnd with
      | true => rfl
      | false => exact (Nat.eq_zero_of_not_pos fun hpos => Bool.false_ne_true (hend.2 hpos)).symm
    refine ⟨sound_mk.2 ⟨iff_of_true rfl (Nat.succ_pos _), hchildren⟩, fun other => ?_, ?_⟩
    · cases other with
      | nil => rw [update_self, hcount]; rfl
      | cons c rest => rfl
    rw [hcount, add, Bool.not_eq_true', ← Bool.not_eq_true, hend]
    exact Nat.not_lt.trans Nat.le_zero
  | cons c word ih =>
  obtain ⟨children, isEnd, count⟩ := node
  obtain ⟨hend, hchildren⟩ := sound_mk.1 h
  have hchild : ((children c).getD new).Sound ∧
      ∀ rest, ((children c).getD new).wordCount rest =
        (mk children isEnd count).wordCount (c :: rest) := by
    simp only [wordCount_cons]
    cases hc : children c with
    | none => exact ⟨sound_new, wordCount_new⟩
    | some child => exact ⟨(hchildren c child hc).1, fun rest => rfl⟩
  obtain ⟨hsound, hcount, hnew⟩ := ih hchild.1
  rw [hchild.2] at hcount hnew
  refine ⟨sound_mk.2 ⟨hend, fun d child hd => ?_⟩, wordCount_update fun rest => ?_, hnew⟩
  · by_cases hdc : d = c
    · subst hdc
      rw [update_self] at hd
      cases hd
      exact ⟨hsound, word, by rw [hcount, update_self]; exact Nat.succ_pos _⟩
    rw [update_of_ne hdc] at hd
    exact hchildren d child hd
  rw [wordCount_cons, update_self]
  exact (hcount rest).trans (congrFun (congrArg (update · word _) (funext hchild.2)) rest)

theorem removeHelper_spec {word : Bytes} (h : node.Sound)
    (hpos : 0 < node.wordCount word) : (node.removeHelper word).1.Sound ∧
    (∀ other, (node.removeHelper word).1.wordCount other = update node.wordCount word 0 other) ∧
    ((node.removeHelper word).2 = true ↔
      ∀ other, (node.removeHelper word).1.wordCount other = 0) := by
  induction word generalizing node with
  | nil =>
    obtain ⟨children, isEnd, count⟩ := node
    obtain ⟨hend, hchildren⟩ := sound_mk.1 h
    have hsound : (mk children false 0).Sound :=
      sound_mk.2 ⟨iff_of_false nofun (Nat.lt_irrefl 0), hchildren⟩
    cases isEnd with
    | false => exact absurd hpos (Nat.lt_irrefl 0)
    | true =>
    have hgone := (wordCount_eq_zero_iff hsound).trans (and_iff_right rfl)
    refine ⟨hsound, fun other => ?_, hgone.symm⟩
    cases other <;> rfl
  | cons c word ih =>
  obtain ⟨children, isEnd, count⟩ := node
  obtain ⟨hend, hchildren⟩ := sound_mk.1 h
  rw [wordCount_cons] at hpos
  cases hc : children c with
  | none =>
    rw [hc] at hpos
    exact absurd hpos (Nat.lt_irrefl 0)
  | some child =>
  rw [hc] at hpos
  obtain ⟨hsound, hcount, hdelete⟩ := ih (hchildren c child hc).1 hpos
  have hold : (fun rest => (mk children isEnd count).wordCount (c :: rest)) =
      child.wordCount := by
    funext rest
    rw [wordCount_cons, hc]
  rcases hrec : child.removeHelper word with ⟨child', delete⟩
  rw [hrec] at hsound hcount hdelete
  have hothers (d : UInt8) (other : TrieNode) (replaced : Option TrieNode)
      (hd : update children c replaced d = some other) :
      replaced = some other ∨ other.Sound ∧ ∃ word, 0 < other.wordCount word := by
    by_cases hdc : d = c
    · subst hdc
      rw [update_self] at hd
      exact .inl hd
    rw [update_of_ne hdc] at hd
    exact .inr (hchildren d other hd)
  cases delete with
  | true =>
    simp only [removeHelper, hc, hrec]
    have hzero := hdelete.1 rfl
    have hkept : (mk (update children c none) isEnd count).Sound :=
      sound_mk.2 ⟨hend, fun d other hd => (hothers d other none hd).resolve_left nofun⟩
    refine ⟨hkept, wordCount_update fun rest => ?_, ?_⟩
    · rw [wordCount_cons, update_self, hold]
      exact (hzero rest).symm.trans (hcount rest)
    rw [wordCount_eq_zero_iff hkept, Bool.and_eq_true, Bool.not_eq_true']
  | false =>
  simp only [removeHelper, hc, hrec]
  have hleads : ∃ rest, 0 < child'.wordCount rest := by
    by_contra hnone
    refine absurd (hdelete.2 fun rest => ?_) Bool.false_ne_true
    exact Nat.eq_zero_of_not_pos fun hrest => hnone ⟨rest, hrest⟩
  refine ⟨sound_mk.2 ⟨hend, fun d other hd => ?_⟩, wordCount_update fun rest => ?_,
    iff_of_false nofun fun hzero => ?_⟩
  · rcases hothers d other _ hd with heq | hother
    · cases heq
      exact ⟨hsound, hleads⟩
    exact hother
  · rw [wordCount_cons, update_self, hold]
    exact hcount rest
  obtain ⟨rest, hrest⟩ := hleads
  have hword := hzero (c :: rest)
  rw [wordCount_cons, update_self] at hword
  exact absurd hword (Nat.ne_of_gt hrest)

theorem mem_collectWords (order : TrieOrder) (h : node.Sound)
    (path word : Bytes) : word ∈ node.collectWords order path ↔
      ∃ rest, word = path ++ rest ∧ 0 < node.wordCount rest := by
  induction node using nested generalizing path with
  | h children isEnd count ih =>
  obtain ⟨hend, hchildren⟩ := sound_mk.1 h
  rw [collectWords, mem_append, mem_flatMap]
  constructor
  · rintro (hword | ⟨c, -, hword⟩)
    · cases isEnd with
      | false => exact absurd hword not_mem_nil
      | true => exact ⟨[], by rw [append_nil]; exact mem_singleton.1 hword, hend.1 rfl⟩
    cases hc : children c with
    | none =>
      rw [hc, collectChild] at hword
      exact absurd hword not_mem_nil
    | some child =>
    rw [hc, collectChild, ih c child hc (hchildren c child hc).1] at hword
    obtain ⟨rest, hword, hpos⟩ := hword
    exact ⟨c :: rest, by rw [hword, append_assoc, singleton_append], by
      rwa [wordCount_cons, hc]⟩
  rintro ⟨rest, rfl, hpos⟩
  cases rest with
  | nil =>
    cases isEnd with
    | false => exact absurd hpos (Nat.lt_irrefl 0)
    | true => exact .inl (by rw [append_nil]; exact mem_singleton_self _)
  | cons c rest =>
  rw [wordCount_cons] at hpos
  cases hc : children c with
  | none =>
    rw [hc] at hpos
    exact absurd hpos (Nat.lt_irrefl 0)
  | some child =>
  rw [hc] at hpos
  refine .inr ⟨c, (order.mem_keys ..).2 (by rw [hc]; exact nofun), ?_⟩
  rw [hc, collectChild, ih c child hc (hchildren c child hc).1]
  exact ⟨rest, by rw [append_assoc, singleton_append], hpos⟩

theorem nodup_collectWords (order : TrieOrder) (h : node.Sound) (path : Bytes) :
    (node.collectWords order path).Nodup := by
  induction node using nested generalizing path with
  | h children isEnd count ih =>
  obtain ⟨hend, hchildren⟩ := sound_mk.1 h
  have hword {c : UInt8} {word : Bytes}
      (hmem : word ∈ collectChild order (children c) (path ++ [c])) :
      ∃ rest, word = path ++ c :: rest := by
    cases hc : children c with
    | none =>
      rw [hc, collectChild] at hmem
      exact absurd hmem not_mem_nil
    | some child =>
    rw [hc, collectChild, mem_collectWords order (hchildren c child hc).1] at hmem
    obtain ⟨rest, heq, -⟩ := hmem
    exact ⟨rest, by rw [heq, append_assoc, singleton_append]⟩
  rw [collectWords, nodup_append', nodup_flatMap]
  refine ⟨?_, ⟨fun c _ => ?_, (order.nodup path children).imp fun hne word hleft hright => ?_⟩,
    fun word hleft hright => ?_⟩
  · split
    · exact nodup_singleton _
    exact nodup_nil
  · cases hc : children c with
    | none => exact nodup_nil
    | some child => exact ih c child hc (hchildren c child hc).1 _
  · obtain ⟨rest, rfl⟩ := hword hleft
    obtain ⟨rest', heq⟩ := hword hright
    exact hne (List.cons.inj (append_cancel_left heq)).1
  obtain ⟨c, -, hmem⟩ := mem_flatMap.1 hright
  obtain ⟨rest, heq⟩ := hword hmem
  split at hleft
  · rw [mem_singleton.1 hleft] at heq
    exact absurd (self_eq_append_right.1 heq) (cons_ne_nil _ _)
  exact absurd hleft not_mem_nil

end Node

end TrieNode

/-! ## Runs -/

/-- A call that may change a tree. -/
inductive TrieCall
  | add (word : Bytes)
  | remove (word : Bytes)
  | clone
  | clear
  deriving DecidableEq

namespace TrieTree

/-- The tree after a call. A caller that clones it goes on with the copy. -/
def step (tree : TrieTree) : TrieCall → TrieTree
  | .add word => tree.add word
  | .remove word => (tree.remove word).1
  | .clone => tree.clone
  | .clear => {}

/-- A set of words, each with the number of times it was added since it was last removed. -/
def recount (adds : Bytes → Nat) : TrieCall → Bytes → Nat
  | .add word => if word = [] then adds else update adds word (adds word + 1)
  | .remove word => update adds word 0
  | .clone => adds
  | .clear => fun _ => 0

/-- The tree holds words with counters, and its size is the number of the words. -/
structure Holds (tree : TrieTree) (adds : Bytes → Nat) : Prop where
  sound : tree.root.Sound
  wordCount : tree.root.wordCount = adds
  nil : adds [] = 0
  size : ∃ words : List Bytes, words.Nodup ∧ (∀ word, word ∈ words ↔ 0 < adds word) ∧
    tree.size = words.length

theorem contains_iff {tree : TrieTree} (h : tree.root.Sound) (word : Bytes) :
    tree.contains word = true ↔ 0 < tree.root.wordCount word := by
  rw [contains, TrieNode.wordCount]
  cases hfound : tree.root.findNode word with
  | none => exact iff_of_false nofun (Nat.lt_irrefl 0)
  | some node =>
  have hend := (h word node hfound).1
  simp only
  split
  · rename_i htrue
    exact iff_of_true htrue (hend.1 htrue)
  rename_i hfalse
  exact iff_of_false hfalse (Nat.lt_irrefl 0)

namespace Holds

variable {tree : TrieTree} {adds : Bytes → Nat}

theorem new : Holds {} fun _ => 0 :=
  ⟨TrieNode.sound_new, funext TrieNode.wordCount_new, rfl, [], nodup_nil,
    fun _ => iff_of_false not_mem_nil (Nat.lt_irrefl 0), rfl⟩

theorem add (h : Holds tree adds) {word : Bytes} (hne : word ≠ []) :
    Holds (tree.add word) (update adds word (adds word + 1)) := by
  obtain ⟨words, hnodup, hmem, hsize⟩ := h.size
  obtain ⟨hsound, hcount, hnew⟩ := TrieNode.add_spec h.sound word
  rw [h.wordCount] at hcount hnew
  rw [TrieTree.add, if_neg hne]
  rcases hroot : tree.root.add word with ⟨root, isNew⟩
  rw [hroot] at hsound hcount hnew
  refine ⟨hsound, funext hcount, by rw [update_of_ne hne.symm, h.nil], ?_⟩
  cases isNew with
  | true =>
    have hzero := hnew.1 rfl
    refine ⟨word :: words, nodup_cons.2 ⟨fun hold => ?_, hnodup⟩, fun other => ?_,
      congrArg Nat.succ hsize⟩
    · exact absurd ((hmem word).1 hold) (by omega)
    by_cases hother : other = word
    · rw [hother, update_self]
      exact iff_of_true (mem_cons_self ..) (Nat.succ_pos _)
    rw [update_of_ne hother, mem_cons, or_iff_right hother, hmem]
  | false =>
  refine ⟨words, hnodup, fun other => ?_, hsize⟩
  by_cases hother : other = word
  · rw [hother, update_self]
    refine iff_of_true ((hmem word).2 ?_) (Nat.succ_pos _)
    exact Nat.pos_of_ne_zero fun hzero => Bool.false_ne_true (hnew.2 hzero)
  rw [update_of_ne hother, hmem]

theorem remove (h : Holds tree adds) (word : Bytes) :
    Holds (tree.remove word).1 (update adds word 0) := by
  have hcontains := contains_iff h.sound word
  rw [h.wordCount] at hcontains
  rw [TrieTree.remove]
  split
  · rename_i habsent
    have hzero : adds word = 0 := by
      rcases habsent with rfl | hfalse
      · exact h.nil
      exact Nat.eq_zero_of_not_pos fun hpos => Bool.false_ne_true (hfalse ▸ hcontains.2 hpos)
    rw [← hzero, update_eq_self]
    exact h
  rename_i hpresent
  obtain ⟨hne, hfound⟩ := not_or.1 hpresent
  have hpos := hcontains.1 (Bool.eq_true_of_not_eq_false hfound)
  obtain ⟨words, hnodup, hmem, hsize⟩ := h.size
  obtain ⟨hsound, hcount, -⟩ := TrieNode.removeHelper_spec h.sound (h.wordCount ▸ hpos)
  rw [h.wordCount] at hcount
  refine ⟨hsound, funext hcount, by rw [update_of_ne (Ne.symm hne), h.nil], words.erase word,
    hnodup.erase word, fun other => ?_, ?_⟩
  · rw [hnodup.mem_erase_iff, hmem]
    by_cases hother : other = word
    · rw [hother, update_self]
      exact iff_of_false (fun hleft => hleft.1 rfl) (Nat.lt_irrefl 0)
    rw [update_of_ne hother, and_iff_right hother]
  rw [length_erase_of_mem ((hmem word).2 hpos), ← hsize]

end Holds

theorem Holds.run (h : Holds tree adds) (calls : List TrieCall) :
    Holds (calls.foldl step tree) (calls.foldl recount adds) := by
  induction calls generalizing tree adds with
  | nil => exact h
  | cons call calls ih =>
  rw [foldl_cons, foldl_cons]
  apply ih
  cases call with
  | add word =>
    rw [step, recount]
    split
    · rename_i hnil
      rw [TrieTree.add, if_pos hnil]
      exact h
    rename_i hne
    exact h.add hne
  | remove word => exact h.remove word
  | clone =>
    rw [step, clone, TrieNode.cloneNode_eq]
    exact h
  | clear => exact Holds.new

theorem recount_le (calls : List TrieCall) (word : Bytes) :
    calls.foldl recount adds word ≤ adds word + calls.count (.add word) := by
  induction calls generalizing adds with
  | nil => exact Nat.le_refl _
  | cons call calls ih =>
  rw [foldl_cons, count_cons]
  refine ih.trans ?_
  rw [Nat.add_comm (calls.count _), ← Nat.add_assoc]
  apply Nat.add_le_add_right
  cases call with
  | add other =>
    rw [recount]
    split
    · exact Nat.le_add_right _ _
    by_cases heq : word = other
    · rw [heq, update_self, if_pos (beq_self_eq_true _)]
    rw [update_of_ne heq]
    exact Nat.le_add_right _ _
  | remove other =>
    rw [recount]
    by_cases heq : word = other
    · rw [heq, update_self]
      exact Nat.zero_le _
    rw [update_of_ne heq]
    exact Nat.le_add_right _ _
  | clone => exact Nat.le_add_right _ _
  | clear => exact Nat.zero_le _

/-- What the trie tells of the words. -/
theorem Holds.answers (h : Holds tree adds) (order : TrieOrder) (word path : Bytes) :
    (tree.contains word = true ↔ 0 < adds word) ∧ tree.query word = adds word ∧
    ((tree.getAllWords order).Nodup ∧ ∀ word, word ∈ tree.getAllWords order ↔ 0 < adds word) ∧
    tree.size = (tree.getAllWords order).length ∧
    ((tree.getWordsWithPrefix order path).Nodup ∧
      ∀ word, word ∈ tree.getWordsWithPrefix order path ↔ path <+: word ∧ 0 < adds word) ∧
    (path ≠ [] → (tree.startsWith path = true ↔ ∃ word, path <+: word ∧ 0 < adds word)) := by
  obtain ⟨words, hnodup, hmem, hsize⟩ := h.size
  have hall := TrieNode.nodup_collectWords order h.sound []
  have hstored (word : Bytes) : word ∈ tree.getAllWords order ↔ 0 < adds word := by
    rw [getAllWords, TrieNode.mem_collectWords order h.sound, h.wordCount]
    simp only [nil_append, exists_eq_left']
  have hsame := (perm_ext_iff_of_nodup hnodup hall).2 fun word =>
    (hmem word).trans (hstored word).symm
  have happend := tree.root.wordCount_append path
  rw [h.wordCount] at happend
  refine ⟨?_, congrFun h.wordCount word, ⟨hall, hstored⟩, hsize.trans hsame.length_eq, ?_⟩
  · rw [contains_iff h.sound, h.wordCount]
  rw [getWordsWithPrefix, startsWith]
  cases hfound : tree.root.findNode path with
  | none =>
    rw [hfound] at happend
    have hnone (word : Bytes) : ¬ (path <+: word ∧ 0 < adds word) := by
      rintro ⟨⟨rest, rfl⟩, hpos⟩
      exact Nat.ne_of_gt hpos (happend rest)
    exact ⟨⟨nodup_nil, fun word => iff_of_false not_mem_nil (hnone word)⟩,
      fun _ => iff_of_false nofun fun ⟨word, hword⟩ => hnone word hword⟩
  | some node =>
  rw [hfound] at happend
  have hsound := h.sound.of_find hfound
  refine ⟨⟨TrieNode.nodup_collectWords order hsound path, fun word => ?_⟩,
    fun hne => iff_of_true rfl ?_⟩
  · rw [TrieNode.mem_collectWords order hsound]
    constructor
    · rintro ⟨rest, rfl, hpos⟩
      exact ⟨prefix_append path rest, by rwa [happend]⟩
    rintro ⟨⟨rest, rfl⟩, hpos⟩
    exact ⟨rest, rfl, by rwa [happend] at hpos⟩
  obtain ⟨rest, hpos⟩ := (h.sound path node hfound).2 hne
  exact ⟨path ++ rest, prefix_append path rest, by rwa [happend]⟩

/-- After any calls the trie answers as the counted set of the words that have been added since they
were last removed, and no node is left that leads to none of them. -/
theorem trie_counts (calls : List TrieCall) (order : TrieOrder) (word path : Bytes) :
    let tree := calls.foldl step {}
    let adds := calls.foldl recount fun _ => 0
    adds [] = 0 ∧ adds word ≤ calls.count (.add word) ∧
    (tree.contains word = true ↔ 0 < adds word) ∧ tree.query word = adds word ∧
    ((tree.getAllWords order).Nodup ∧ ∀ word, word ∈ tree.getAllWords order ↔ 0 < adds word) ∧
    tree.size = (tree.getAllWords order).length ∧
    ((tree.getWordsWithPrefix order path).Nodup ∧
      ∀ word, word ∈ tree.getWordsWithPrefix order path ↔ path <+: word ∧ 0 < adds word) ∧
    (path ≠ [] → (tree.startsWith path = true ↔ ∃ word, path <+: word ∧ 0 < adds word)) := by
  have h := Holds.new.run calls
  have hle := @recount_le (fun _ => 0) calls word
  rw [Nat.zero_add] at hle
  exact ⟨h.nil, hle, h.answers order word path⟩

end TrieTree

end Galay.Utils
