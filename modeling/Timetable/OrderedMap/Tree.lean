/-!
# Search trees balanced by priorities

A `Tree` stores entries in the order of their keys.  Every node also carries a priority, and the
smaller priority is nearer to the root; with priorities that look random the tree stays shallow
whatever the order of insertions.  Such a tree is called a treap.

No operation changes a tree: it builds the nodes on the path it takes and shares the rest.

* `Tree.toList` is the view every operation is judged by: the entries from left to right.
* `Tree.insert` and `Tree.erase?` rebuild one path.  `Tree.raise` turns a child that outranks its
  parent above it; `toList_raise` says that the entries stay in place.
* `Tree.merge` joins two trees by priorities; `toList_merge` says that it appends the entries.
-/

set_option autoImplicit false

namespace Timetable

universe u v

/-- A binary tree of entries; each node knows the number of entries below it. -/
inductive Tree (K : Type u) (V : Type v)
  | leaf : Tree K V
  | node (size priority : Nat) (key : K) (value : V) (left right : Tree K V) : Tree K V
  deriving Repr, Inhabited

namespace Tree

variable {K : Type u} {V : Type v}

/-- The number of entries, read off the root. -/
def size : Tree K V → Nat
  | leaf => 0
  | node n _ _ _ _ _ => n

/-- The entries from left to right. -/
def toList : Tree K V → List (K × V)
  | leaf => []
  | node _ _ k v l r => l.toList ++ (k, v) :: r.toList

/-- A node over two trees, its size computed. -/
def branch (priority : Nat) (key : K) (value : V) (left right : Tree K V) : Tree K V :=
  node (1 + left.size + right.size) priority key value left right

@[simp] theorem toList_leaf : (leaf : Tree K V).toList = [] := rfl

@[simp] theorem toList_branch (p : Nat) (k : K) (v : V) (l r : Tree K V) :
    (branch p k v l r).toList = l.toList ++ (k, v) :: r.toList := rfl

/-! ## Looking up -/

/-- The entry furthest to the left. -/
def first? : Tree K V → Option (K × V)
  | leaf => none
  | node _ _ k v l _ => some (l.first?.getD (k, v))

/-- The entry furthest to the right. -/
def last? : Tree K V → Option (K × V)
  | leaf => none
  | node _ _ k v _ r => some (r.last?.getD (k, v))

/-- The entry at a position from the left, found by the sizes. -/
def nth? : Tree K V → Nat → Option (K × V)
  | leaf, _ => none
  | node _ _ k v l r, i =>
    if i < l.size then l.nth? i
    else if i = l.size then some (k, v)
    else r.nth? (i - (l.size + 1))

/-- What is found at a position is an entry. -/
theorem mem_of_nth? {t : Tree K V} {i : Nat} {e : K × V} (h : t.nth? i = some e) :
    e ∈ t.toList := by
  induction t generalizing i with
  | leaf => cases h
  | node n p k v l r ihl ihr =>
    rw [nth?] at h
    rw [toList, List.mem_append, List.mem_cons]
    split at h
    · exact .inl (ihl h)
    · split at h
      · exact .inr (.inl (Option.some.inj h).symm)
      · exact .inr (.inr (ihr h))

/-- The value stored under a key. -/
def get? [Ord K] : Tree K V → K → Option V
  | leaf, _ => none
  | node _ _ k v l r, key =>
    match compare key k with
    | .lt => l.get? key
    | .eq => some v
    | .gt => r.get? key

/-- The last entry whose key is not above `key`, or `best` if the tree has none. -/
def floor? [Ord K] : Tree K V → K → (best : Option (K × V)) → Option (K × V)
  | leaf, _, best => best
  | node _ _ k v l r, key, best =>
    match compare key k with
    | .lt => l.floor? key best
    | .eq => some (k, v)
    | .gt => r.floor? key (some (k, v))

/-- The first entry whose key is not below `key`, or `best` if the tree has none. -/
def ceiling? [Ord K] : Tree K V → K → (best : Option (K × V)) → Option (K × V)
  | leaf, _, best => best
  | node _ _ k v l r, key, best =>
    match compare key k with
    | .lt => l.ceiling? key (some (k, v))
    | .eq => some (k, v)
    | .gt => r.ceiling? key best

/-! ## Inserting -/

/-- Whether the root of a tree has a priority below `p`. -/
def outranks : Tree K V → Nat → Bool
  | leaf, _ => false
  | node _ q _ _ _ _, p => decide (q < p)

/-- Whether the root of `l` outranks `p` and is not itself outranked by the root of `r`. -/
def leads : Tree K V → Tree K V → Nat → Bool
  | leaf, _, _ => false
  | node _ q _ _ _ _, r, p => decide (q < p) && !r.outranks q

/-- A node over two trees, turned so that a left child that leads comes above it. -/
def turnRight (p : Nat) (k : K) (v : V) : Tree K V → Tree K V → Tree K V
  | leaf, r => branch p k v leaf r
  | node _ q lk lv ll lr, r => branch q lk lv ll (branch p k v lr r)

/-- A node over two trees, turned so that its right child comes above it. -/
def turnLeft (p : Nat) (k : K) (v : V) : Tree K V → Tree K V → Tree K V
  | l, leaf => branch p k v l leaf
  | l, node _ q rk rv rl rr => branch q rk rv (branch p k v l rl) rr

/-- A node over two trees, turned if one of them outranks it.  If both do, the one with the smaller
priority comes to the top, the left one if they are equal. -/
def raise (p : Nat) (k : K) (v : V) (l r : Tree K V) : Tree K V :=
  if l.leads r p then turnRight p k v l r
  else if r.outranks p then turnLeft p k v l r
  else branch p k v l r

@[simp] theorem toList_turnRight (p : Nat) (k : K) (v : V) (l r : Tree K V) :
    (turnRight p k v l r).toList = l.toList ++ (k, v) :: r.toList := by
  cases l <;> simp [turnRight, toList]

@[simp] theorem toList_turnLeft (p : Nat) (k : K) (v : V) (l r : Tree K V) :
    (turnLeft p k v l r).toList = l.toList ++ (k, v) :: r.toList := by
  cases r <;> simp [turnLeft, toList]

/-- Turning a node keeps the entries in their places. -/
@[simp] theorem toList_raise (p : Nat) (k : K) (v : V) (l r : Tree K V) :
    (raise p k v l r).toList = l.toList ++ (k, v) :: r.toList := by
  rw [raise]
  split
  · exact toList_turnRight p k v l r
  · split
    · exact toList_turnLeft p k v l r
    · rfl

/-- Stores a value under a key.  A new key gets the priority; a key that is there keeps its own, so
that the shape of the tree stays. -/
def insert [Ord K] (priority : Nat) (key : K) (value : V) : Tree K V → Tree K V
  | leaf => branch priority key value leaf leaf
  | node _ p k v l r =>
    match compare key k with
    | .lt => raise p k v (l.insert priority key value) r
    | .eq => branch p key value l r
    | .gt => raise p k v l (r.insert priority key value)

/-! ## Removing -/

/-- The merge of `whole`, a node whose right subtree is merged by `tail`, with another tree. -/
def mergeNode (p : Nat) (k : K) (v : V) (left whole : Tree K V) (tail : Tree K V → Tree K V) :
    Tree K V → Tree K V
  | leaf => whole
  | node n q rk rv rl rr =>
    if p < q then branch p k v left (tail (node n q rk rv rl rr))
    else branch q rk rv (mergeNode p k v left whole tail rl) rr

/-- Joins two trees, all keys of the first being before those of the second.  The root with the
smaller priority becomes the root, the second one if they are equal. -/
def merge : Tree K V → Tree K V → Tree K V
  | leaf => fun r => r
  | node n p k v l r => mergeNode p k v l (node n p k v l r) (merge r)

theorem toList_mergeNode {p : Nat} {k : K} {v : V} {left whole : Tree K V}
    {tail : Tree K V → Tree K V} {rest : List (K × V)}
    (hw : whole.toList = left.toList ++ (k, v) :: rest)
    (ht : ∀ t, (tail t).toList = rest ++ t.toList) (t : Tree K V) :
    (mergeNode p k v left whole tail t).toList = whole.toList ++ t.toList := by
  induction t with
  | leaf => simp [mergeNode]
  | node n q rk rv rl rr ihl _ =>
    rw [mergeNode]
    split
    · simp [ht, hw, toList]
    · simp [ihl, toList]

/-- Merging two trees appends their entries. -/
theorem toList_merge (l r : Tree K V) : (l.merge r).toList = l.toList ++ r.toList := by
  induction l generalizing r with
  | leaf => rfl
  | node n p k v ll lr _ ih => exact toList_mergeNode rfl ih r

/-- Takes a key out; none if the tree does not have it, in which case there is nothing to
rebuild. -/
def erase? [Ord K] (key : K) : Tree K V → Option (Tree K V)
  | leaf => none
  | node _ p k v l r =>
    match compare key k with
    | .lt => (l.erase? key).map fun l => branch p k v l r
    | .eq => some (l.merge r)
    | .gt => (r.erase? key).map fun r => branch p k v l r

end Tree

end Timetable
