import Pcrb.Lib.Bytes

/-!
# Reading a FAT12 volume

A volume is a byte memory. The parameter block in its first sector gives the
geometry; the root directory gives a file's first cluster and its size; the
12-bit entries of the allocation table link the clusters. A file's contents are
the first `size` bytes of its cluster chain.

`layout_congr`: where a file lies depends only on the bytes in front of the data
area (given that its chain stays inside the table).
-/

namespace Fat12

/-- The fields of the parameter block that locate the areas of the volume. -/
structure Geometry where
  bytesPerSector : ℕ
  sectorsPerCluster : ℕ
  reservedSectors : ℕ
  fatCount : ℕ
  rootEntries : ℕ
  sectorsPerFat : ℕ

/-- A little-endian field of `k` bytes. -/
def field (m : Bytes) (a k : ℕ) : ℕ := Bytes.ofLE (m.read a k)

/-- The geometry a volume declares. -/
def geometry (m : Bytes) : Geometry where
  bytesPerSector := field m 11 2
  sectorsPerCluster := field m 13 1
  reservedSectors := field m 14 2
  fatCount := field m 16 1
  rootEntries := field m 17 2
  sectorsPerFat := field m 22 2

namespace Geometry

variable (g : Geometry)

def fatStart : ℕ := g.reservedSectors * g.bytesPerSector

def rootStart : ℕ := (g.reservedSectors + g.fatCount * g.sectorsPerFat) * g.bytesPerSector

/-- The root directory takes whole sectors; the data area follows it. -/
def dataStart : ℕ :=
  g.rootStart + (g.rootEntries * 32 + g.bytesPerSector - 1) / g.bytesPerSector * g.bytesPerSector

def clusterSize : ℕ := g.sectorsPerCluster * g.bytesPerSector

/-- Cluster numbers start at 2. -/
def clusterStart (c : ℕ) : ℕ := g.dataStart + (c - 2) * g.clusterSize

/-- The address of the 16-bit word that holds cluster `c`'s table entry. -/
def entryStart (c : ℕ) : ℕ := g.fatStart + c + c / 2

end Geometry

/-- The table entry of cluster `c`: the low or the high 12 bits of its word. -/
def next (m : Bytes) (g : Geometry) (c : ℕ) : ℕ :=
  let w := field m (g.entryStart c) 2
  -- two entries share three bytes
  if c % 2 = 0 then w % 4096 else w / 16

/-- The cluster chain from `c` on, cut at the number of clusters a table can name. -/
def chain (m : Bytes) (g : Geometry) : ℕ → ℕ → List ℕ
  | 0, _ => []
  | fuel + 1, c => if c < 2 ∨ 0xFF8 ≤ c then [] else c :: chain m g fuel (next m g c)

/-- A root directory entry. -/
structure Entry where
  name : List UInt8
  attr : UInt8
  start : ℕ
  size : ℕ

/-- The `i`-th root directory entry. -/
def entry (m : Bytes) (g : Geometry) (i : ℕ) : Entry :=
  let a := g.rootStart + 32 * i
  { name := m.read a 11
    attr := m (a + 11)
    start := field m (a + 26) 2
    size := field m (a + 28) 4 }

/-- Upper case of an ASCII letter. -/
def upcase (b : UInt8) : UInt8 := if 97 ≤ b ∧ b ≤ 122 then b - 32 else b

/-- Names are compared without regard to case; a volume label is not a file. -/
def Entry.isFile (name : List UInt8) (e : Entry) : Bool :=
  e.attr &&& 0x08 == 0 && e.name.map upcase == name

/-- The directory ends at the first entry whose name starts with a zero byte. -/
def find (m : Bytes) (g : Geometry) (name : List UInt8) : Option Entry :=
  (((List.range g.rootEntries).map (entry m g)).takeWhile fun e => e.name.head? != some 0).find?
    (Entry.isFile name)

/-- The cluster chain and the size of a file. -/
def layout (m : Bytes) (name : List UInt8) : Option (List ℕ × ℕ) :=
  let g := geometry m
  (find m g name).map fun e => (chain m g 4096 e.start, e.size)

/-- **The contents of a file**, as a reader of the volume sees them. -/
def readFile (m : Bytes) (name : List UInt8) : Option (List UInt8) :=
  let g := geometry m
  (layout m name).map fun l => (l.1.flatMap fun c => m.read (g.clusterStart c) g.clusterSize).take l.2

/-! ### What the layout depends on -/

variable {m m' : Bytes} {g : Geometry}

theorem field_congr {a k : ℕ} (h : ∀ i, a ≤ i → i < a + k → m i = m' i) :
    field m a k = field m' a k := by
  unfold field
  rw [Bytes.read_congr fun i hi => h (a + i) (by omega) (by omega)]

theorem geometry_congr (h : ∀ a, a < 24 → m a = m' a) : geometry m = geometry m' := by
  have hf : ∀ a k, a + k ≤ 24 → field m a k = field m' a k := fun a k hk =>
    field_congr fun i _ hi => h i (by omega)
  unfold geometry
  rw [hf 11 2 (by omega), hf 13 1 (by omega), hf 14 2 (by omega), hf 16 1 (by omega),
    hf 17 2 (by omega), hf 22 2 (by omega)]

theorem entry_congr {i : ℕ}
    (h : ∀ a, g.rootStart + 32 * i ≤ a → a < g.rootStart + 32 * i + 32 → m a = m' a) :
    entry m g i = entry m' g i := by
  unfold entry
  dsimp only
  rw [Bytes.read_congr fun j hj => h _ (by omega) (by omega), h _ (by omega) (by omega),
    field_congr (k := 2) fun j _ _ => h j (by omega) (by omega),
    field_congr (k := 4) fun j _ _ => h j (by omega) (by omega)]

theorem find_congr {name : List UInt8}
    (h : ∀ a, g.rootStart ≤ a → a < g.rootStart + 32 * g.rootEntries → m a = m' a) :
    find m g name = find m' g name := by
  unfold find
  have he : (List.range g.rootEntries).map (entry m g) =
      (List.range g.rootEntries).map (entry m' g) := by
    apply List.map_congr_left
    intro i hi
    have := List.mem_range.1 hi
    exact entry_congr fun a h1 h2 => h a (by omega) (by omega)
  rw [he]

theorem next_congr {c : ℕ}
    (h : ∀ a, g.entryStart c ≤ a → a < g.entryStart c + 2 → m a = m' a) :
    next m g c = next m' g c := by
  unfold next
  rw [field_congr h]

theorem chain_congr {fuel c : ℕ} (h : ∀ c' ∈ chain m g fuel c, next m g c' = next m' g c') :
    chain m g fuel c = chain m' g fuel c := by
  induction fuel generalizing c with
  | zero => rfl
  | succ fuel ih =>
    simp only [chain] at h ⊢
    split
    · rfl
    · rename_i hc
      rw [if_neg hc] at h
      rw [← h c List.mem_cons_self]
      exact congrArg _ (ih fun c' hc' => h c' (List.mem_cons_of_mem _ hc'))

/-- The root directory lies in front of the data area. -/
theorem Geometry.rootEnd_le (h : 0 < g.bytesPerSector) :
    g.rootStart + 32 * g.rootEntries ≤ g.dataStart := by
  have := Nat.lt_div_mul_add (a := g.rootEntries * 32 + g.bytesPerSector - 1) h
  unfold dataStart; omega

/-- **Where a file lies depends only on the bytes in front of the data area.** -/
theorem layout_congr {name : List UInt8} {cs : List ℕ} {size : ℕ}
    (hl : layout m name = some (cs, size)) (hs : 0 < (geometry m).bytesPerSector)
    (hg : 24 ≤ (geometry m).dataStart)
    (hcs : ∀ c ∈ cs, (geometry m).entryStart c + 2 ≤ (geometry m).dataStart)
    (h : ∀ a, a < (geometry m).dataStart → m a = m' a) :
    geometry m' = geometry m ∧ layout m' name = some (cs, size) := by
  have hgeo : geometry m' = geometry m := (geometry_congr fun a ha => h a (by omega)).symm
  have hroot := Geometry.rootEnd_le hs
  refine ⟨hgeo, ?_⟩
  unfold layout at hl ⊢
  simp only at hl ⊢
  rw [hgeo, ← find_congr (m := m) fun a _ ha => h a (by omega)]
  obtain ⟨e, he, hpair⟩ := Option.map_eq_some_iff.1 hl
  simp only [Prod.mk.injEq] at hpair
  obtain ⟨hchain, hsize⟩ := hpair
  -- the entries of the chain's own clusters lie in the table, so the chain is the same
  have hsame : chain m (geometry m) 4096 e.start = chain m' (geometry m) 4096 e.start :=
    chain_congr fun c hc => next_congr fun a _ ha =>
      h a (by have := hcs c (by rw [← hchain]; exact hc); omega)
  rw [he, Option.map_some, ← hsame, hchain, hsize]

end Fat12
