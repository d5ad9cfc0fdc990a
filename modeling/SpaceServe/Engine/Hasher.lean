import Mathlib.Data.Fintype.EquivFin
import SpaceServe.Lib.Bytes
import SpaceServe.Lib.Dict

/-!
# Hashes of multi-modal inputs

`MultiModalHasher` of `vllm/multimodal/hasher.py`. The arguments are flattened to leaves, each with the
path of keys that leads to it, and the bytes of all paths and leaves are hashed one after the other.
Neither their lengths nor what they are (an image's mode and size, an array's dtype and shape, a string
or bytes) is hashed. The hash function is a parameter.

* `ImageValue`, `ArrayValue`, `IntValue`, `Leaf`, `Value`: the arguments; `Leaf.layout`, `layout`;
* `serializeItem`, `itemToBytes`, `hashKwargs`: the source functions;
* `serializeItem_inj`, `item_inj`: content of a known layout;
* `exists_collision`, **`digest_separates`**.
-/

set_option autoImplicit false

namespace SpaceServe

open Py

namespace MultiModalHasher

/-! ## Arguments -/

/-- Modes of images. -/
inductive ImageMode
  | one
  | l
  | p
  | rgb
  | rgba
  | cmyk
  | ycbcr
  | lab
  | hsv
  | i
  | f
deriving DecidableEq

/-- How many bytes a row of an image takes. Pixels of mode `1` are packed. -/
def ImageMode.rowBytes : ImageMode → ℕ → ℕ
  | .one, width => (width + 7) / 8
  | .l, width => width
  | .p, width => width
  | .rgb, width => 3 * width
  | .rgba, width => 4 * width
  | .cmyk, width => 4 * width
  | .ycbcr, width => 3 * width
  | .lab, width => 3 * width
  | .hsv, width => 3 * width
  | .i, width => 4 * width
  | .f, width => 4 * width

/-- `Image.Image`. -/
structure ImageValue where
  mode : ImageMode
  width : ℕ
  height : ℕ
  pixels : List UInt8
  length_pixels : pixels.length = mode.rowBytes width * height

/-- Types of the numbers in an array. -/
inductive DType
  | bool
  | int8
  | int16
  | int32
  | int64
  | uint8
  | uint16
  | uint32
  | uint64
  | float16
  | float32
  | float64
deriving DecidableEq

/-- `dtype.itemsize`. -/
def DType.itemsize : DType → ℕ
  | .bool => 1
  | .int8 => 1
  | .int16 => 2
  | .int32 => 4
  | .int64 => 8
  | .uint8 => 1
  | .uint16 => 2
  | .uint32 => 4
  | .uint64 => 8
  | .float16 => 2
  | .float32 => 4
  | .float64 => 8

/-- `np.ndarray`, or the array of a `torch.Tensor`. -/
structure ArrayValue where
  dtype : DType
  shape : List ℕ
  data : List UInt8
  length_data : data.length = dtype.itemsize * shape.prod

/-- An `int` of which `np.array` makes a number; of a larger one it makes an object, whose bytes are an
address. -/
structure IntValue where
  val : ℤ
  lower : -2 ^ 63 ≤ val
  upper : val < 2 ^ 64

/-- `np.array(obj).dtype`. -/
def IntValue.dtype (n : IntValue) : DType := if n.val < 2 ^ 63 then .int64 else .uint64

/-- Arguments that are serialized at once. -/
inductive Leaf
  | str (s : String)
  | bytes (b : List UInt8)
  | image (im : ImageValue)
  | int (n : IntValue)
  | array (a : ArrayValue)

/-- An argument. Dictionaries keep the order of their keys. -/
inductive Value
  | leaf (x : Leaf)
  | list (elems : List Value)
  | dict (entries : List (String × Value))

/-! ## The model -/

/-- `serialize_item`. -/
def serializeItem : Leaf → List UInt8
  | .str s => utf8 s
  | .bytes b => b
  | .image im => im.pixels
  | .int n => leBytes 8 (n.val % 2 ^ 64).toNat
  | .array a => a.data

mutual

/-- `item_to_bytes`. -/
def itemToBytes (key : String) : Value → List (List UInt8 × List UInt8)
  | .leaf x => [(serializeItem (.str key), serializeItem x)]
  | .list elems => elemsToBytes key 0 elems
  | .dict entries => entriesToBytes key entries

/-- The elements of a list, from an index on. -/
def elemsToBytes (key : String) (i : ℕ) : List Value → List (List UInt8 × List UInt8)
  | [] => []
  | v :: rest => itemToBytes (key ++ "." ++ toString i) v ++ elemsToBytes key (i + 1) rest

/-- The entries of a dictionary. -/
def entriesToBytes (key : String) : List (String × Value) → List (List UInt8 × List UInt8)
  | [] => []
  | (k, v) :: rest => itemToBytes (key ++ "." ++ k) v ++ entriesToBytes key rest

end

/-- Keyword arguments. -/
abbrev Kwargs := Dict String Value

/-- The bytes of some items, each key before its value. -/
def joinBytes (items : List (List UInt8 × List UInt8)) : List UInt8 := items.flatMap fun p => p.1 ++ p.2

/-- What the hasher is updated with. -/
def updates (kwargs : Kwargs) : List UInt8 :=
  kwargs.entries.flatMap fun p => joinBytes (itemToBytes p.1 p.2)

/-- `hash_kwargs`. -/
def hashKwargs {Digest : Type} (blake3 : List UInt8 → Digest) (kwargs : Kwargs) : Digest :=
  blake3 (updates kwargs)

/-! ## Layouts -/

/-- All about a leaf but its content. -/
inductive LeafLayout
  | str (length : ℕ)
  | bytes (length : ℕ)
  | image (mode : ImageMode) (width height : ℕ)
  | int (dtype : DType)
  | array (dtype : DType) (shape : List ℕ)
deriving DecidableEq

/-- The layout of a leaf. -/
def Leaf.layout : Leaf → LeafLayout
  | .str s => .str (utf8 s).length
  | .bytes b => .bytes b.length
  | .image im => .image im.mode im.width im.height
  | .int n => .int n.dtype
  | .array a => .array a.dtype a.shape

/-- All about an argument but the content of its leaves. -/
inductive Layout
  | leaf (x : LeafLayout)
  | list (elems : List Layout)
  | dict (entries : List (String × Layout))

mutual

/-- The layout of an argument. -/
def Value.layout : Value → Layout
  | .leaf x => .leaf x.layout
  | .list elems => .list (elemsLayout elems)
  | .dict entries => .dict (entriesLayout entries)

/-- The layouts of the elements of a list. -/
def elemsLayout : List Value → List Layout
  | [] => []
  | v :: rest => v.layout :: elemsLayout rest

/-- The layouts of the entries of a dictionary. -/
def entriesLayout : List (String × Value) → List (String × Layout)
  | [] => []
  | (k, v) :: rest => (k, v.layout) :: entriesLayout rest

end

/-- Arguments that differ in the content of their leaves only. -/
def SameLayout (kwargs kwargs' : Kwargs) : Prop :=
  entriesLayout kwargs.entries = entriesLayout kwargs'.entries

/-- How many bytes a leaf has. -/
def LeafLayout.numBytes : LeafLayout → ℕ
  | .str length => length
  | .bytes length => length
  | .image mode width height => mode.rowBytes width * height
  | .int _ => 8
  | .array dtype shape => dtype.itemsize * shape.prod

theorem length_serializeItem (x : Leaf) : (serializeItem x).length = x.layout.numBytes := by
  cases x with
  | str s => rfl
  | bytes b => rfl
  | image im => exact im.length_pixels
  | int n => exact length_leBytes 8 _
  | array a => exact a.length_data

/-! ## Leaves -/

theorem ImageValue.eq_of {im im' : ImageValue} (hmode : im.mode = im'.mode)
    (hwidth : im.width = im'.width) (hheight : im.height = im'.height) (hpixels : im.pixels = im'.pixels) :
    im = im' := by
  cases im
  cases im'
  cases hmode
  cases hwidth
  cases hheight
  cases hpixels
  rfl

theorem ArrayValue.eq_of {a a' : ArrayValue} (hdtype : a.dtype = a'.dtype) (hshape : a.shape = a'.shape)
    (hdata : a.data = a'.data) : a = a' := by
  cases a
  cases a'
  cases hdtype
  cases hshape
  cases hdata
  rfl

/-- The bytes of an `int64`, or of a `uint64`, determine it. -/
theorem IntValue.eq_of {n n' : IntValue} (hdtype : n.dtype = n'.dtype)
    (hbytes : leBytes 8 (n.val % 2 ^ 64).toNat = leBytes 8 (n'.val % 2 ^ 64).toNat) : n = n' := by
  have hmod := leBytes_inj hbytes
  obtain ⟨val, lower, upper⟩ := n
  obtain ⟨val', lower', upper'⟩ := n'
  have hval : val = val' := by
    simp only [IntValue.dtype] at hdtype hmod
    split_ifs at hdtype with h h'
    · omega
    · omega
  cases hval
  rfl

variable {x x' : Leaf} {key : String} {rest rest' : List UInt8}

/-- **The bytes of a leaf of known layout** determine it. -/
theorem serializeItem_inj (h : x.layout = x'.layout) (hbytes : serializeItem x = serializeItem x') :
    x = x' := by
  cases x <;> cases x' <;> simp only [Leaf.layout, reduceCtorEq] at h
  case str.str s s' => exact congrArg Leaf.str (utf8_inj hbytes)
  case bytes.bytes b b' => exact congrArg Leaf.bytes hbytes
  case image.image im im' =>
    obtain ⟨hmode, hwidth, hheight⟩ := LeafLayout.image.inj h
    exact congrArg Leaf.image (ImageValue.eq_of hmode hwidth hheight hbytes)
  case int.int n n' => exact congrArg Leaf.int (IntValue.eq_of (LeafLayout.int.inj h) hbytes)
  case array.array a a' =>
    obtain ⟨hdtype, hshape⟩ := LeafLayout.array.inj h
    exact congrArg Leaf.array (ArrayValue.eq_of hdtype hshape hbytes)

/-! ## Arguments of one layout -/

theorem joinBytes_append (items items' : List (List UInt8 × List UInt8)) :
    joinBytes (items ++ items') = joinBytes items ++ joinBytes items' := List.flatMap_append

/-- A leaf stands in front of the bytes behind it. -/
theorem leaf_inj (h : x.layout = x'.layout)
    (heq : joinBytes (itemToBytes key (.leaf x)) ++ rest = joinBytes (itemToBytes key (.leaf x')) ++ rest') :
    x = x' ∧ rest = rest' := by
  have hbytes : ∀ (x : Leaf), joinBytes (itemToBytes key (.leaf x)) =
      serializeItem (.str key) ++ serializeItem x := fun x => by
    rw [itemToBytes, joinBytes, List.flatMap_singleton]
  rw [hbytes, hbytes, List.append_assoc, List.append_assoc] at heq
  have hlen : (serializeItem x).length = (serializeItem x').length := by
    rw [length_serializeItem, length_serializeItem, h]
  obtain ⟨hx, hrest⟩ := List.append_inj (List.append_cancel_left heq) hlen
  exact ⟨serializeItem_inj h hx, hrest⟩

mutual

/-- **The bytes of an argument of known layout**, with what stands behind them, determine both. -/
theorem item_inj : ∀ (v v' : Value) {key : String} {rest rest' : List UInt8}, v.layout = v'.layout →
    joinBytes (itemToBytes key v) ++ rest = joinBytes (itemToBytes key v') ++ rest' →
    v = v' ∧ rest = rest'
  | .leaf x, .leaf x', _, _, _, h, heq => by
    rw [Value.layout, Value.layout] at h
    obtain ⟨hx, hrest⟩ := leaf_inj (Layout.leaf.inj h) heq
    exact ⟨congrArg Value.leaf hx, hrest⟩
  | .list elems, .list elems', _, _, _, h, heq => by
    rw [Value.layout, Value.layout] at h
    obtain ⟨helems, hrest⟩ := elems_inj elems elems' (Layout.list.inj h) heq
    exact ⟨congrArg Value.list helems, hrest⟩
  | .dict entries, .dict entries', _, _, _, h, heq => by
    rw [Value.layout, Value.layout] at h
    obtain ⟨hentries, hrest⟩ := entries_inj entries entries' (Layout.dict.inj h) heq
    exact ⟨congrArg Value.dict hentries, hrest⟩
  | .leaf _, .list _, _, _, _, h, _ => by cases h
  | .leaf _, .dict _, _, _, _, h, _ => by cases h
  | .list _, .leaf _, _, _, _, h, _ => by cases h
  | .list _, .dict _, _, _, _, h, _ => by cases h
  | .dict _, .leaf _, _, _, _, h, _ => by cases h
  | .dict _, .list _, _, _, _, h, _ => by cases h

theorem elems_inj : ∀ (l l' : List Value) {key : String} {i : ℕ} {rest rest' : List UInt8},
    elemsLayout l = elemsLayout l' →
    joinBytes (elemsToBytes key i l) ++ rest = joinBytes (elemsToBytes key i l') ++ rest' →
    l = l' ∧ rest = rest'
  | [], [], _, _, _, _, _, heq => ⟨rfl, heq⟩
  | v :: l, v' :: l', _, _, _, _, h, heq => by
    obtain ⟨hv, hl⟩ := List.cons.inj h
    rw [elemsToBytes, elemsToBytes, joinBytes_append, joinBytes_append, List.append_assoc,
      List.append_assoc] at heq
    obtain ⟨rfl, hrest⟩ := item_inj v v' hv heq
    obtain ⟨rfl, hend⟩ := elems_inj l l' hl hrest
    exact ⟨rfl, hend⟩
  | [], _ :: _, _, _, _, _, h, _ => by cases h
  | _ :: _, [], _, _, _, _, h, _ => by cases h

theorem entries_inj : ∀ (l l' : List (String × Value)) {key : String} {rest rest' : List UInt8},
    entriesLayout l = entriesLayout l' →
    joinBytes (entriesToBytes key l) ++ rest = joinBytes (entriesToBytes key l') ++ rest' →
    l = l' ∧ rest = rest'
  | [], [], _, _, _, _, heq => ⟨rfl, heq⟩
  | (k, v) :: l, (k', v') :: l', _, _, _, h, heq => by
    obtain ⟨hkv, hl⟩ := List.cons.inj h
    obtain ⟨rfl, hv⟩ := Prod.mk.inj hkv
    rw [entriesToBytes, entriesToBytes, joinBytes_append, joinBytes_append, List.append_assoc,
      List.append_assoc] at heq
    obtain ⟨rfl, hrest⟩ := item_inj v v' hv heq
    obtain ⟨rfl, hend⟩ := entries_inj l l' hl hrest
    exact ⟨rfl, hend⟩
  | [], _ :: _, _, _, _, h, _ => by cases h
  | _ :: _, [], _, _, _, h, _ => by cases h

end

/-! ## Digests -/

/-- The bytes of some keyword arguments. -/
theorem updates_inj : ∀ {l l' : List (String × Value)}, entriesLayout l = entriesLayout l' →
    l.flatMap (fun p => joinBytes (itemToBytes p.1 p.2)) =
      l'.flatMap (fun p => joinBytes (itemToBytes p.1 p.2)) → l = l'
  | [], [], _, _ => rfl
  | (k, v) :: l, (k', v') :: l', h, heq => by
    obtain ⟨hkv, hl⟩ := List.cons.inj h
    obtain ⟨rfl, hv⟩ := Prod.mk.inj hkv
    rw [List.flatMap_cons, List.flatMap_cons] at heq
    obtain ⟨rfl, hrest⟩ := item_inj v v' hv heq
    rw [updates_inj hl hrest]
  | [], _ :: _, h, _ => by cases h
  | _ :: _, [], h, _ => by cases h

theorem SameLayout.eq_of_updates {kwargs kwargs' : Kwargs} (h : SameLayout kwargs kwargs')
    (heq : updates kwargs = updates kwargs') : kwargs = kwargs' := by
  obtain ⟨entries, nodup⟩ := kwargs
  obtain ⟨entries', nodup'⟩ := kwargs'
  have hentries : entries = entries' := updates_inj h heq
  cases hentries
  rfl

variable {Digest : Type} {blake3 : List UInt8 → Digest}

theorem exists_key (kwargs : Kwargs) : ∃ key, key ∉ kwargs.keys := by
  obtain ⟨key, hkey⟩ := Infinite.exists_notMem_finset kwargs.keys.toFinset
  exact ⟨key, fun h => hkey (List.mem_toFinset.mpr h)⟩

/-- No digest belongs to one argument list only: an empty list under a further key adds nothing. -/
theorem exists_collision (blake3 : List UInt8 → Digest) (kwargs : Kwargs) :
    ∃ kwargs', ¬ SameLayout kwargs kwargs' ∧ hashKwargs blake3 kwargs = hashKwargs blake3 kwargs' := by
  obtain ⟨key, hkey⟩ := exists_key kwargs
  have hnodup : ((kwargs.entries ++ [(key, Value.list [])]).map Prod.fst).Nodup := by
    rw [List.map_append]
    exact List.nodup_append.mpr ⟨kwargs.nodup, List.nodup_singleton key, fun a ha b hb => by
      rintro rfl
      have heq : a = key := List.mem_singleton.mp hb
      exact hkey (heq ▸ ha)⟩
  refine ⟨⟨kwargs.entries ++ [(key, .list [])], hnodup⟩, fun hlayout => ?_, congrArg blake3 ?_⟩
  · have hlen : ∀ l : List (String × Value), (entriesLayout l).length = l.length := by
      intro l
      induction l with
      | nil => rfl
      | cons p l ih => rw [entriesLayout, List.length_cons, List.length_cons, ih]
    have := congrArg List.length hlayout
    rw [hlen, hlen, List.length_append, List.length_singleton] at this
    omega
  · have hnone : joinBytes (itemToBytes key (.list [])) = [] := rfl
    rw [updates, updates, List.flatMap_append, List.flatMap_singleton, hnone, List.append_nil]

/-- **Digests separate arguments of the same layout**, and for every argument list some others of
another layout have its digest. -/
theorem digest_separates (hblake3 : Function.Injective blake3) (kwargs : Kwargs) :
    (∀ kwargs', SameLayout kwargs kwargs' →
        hashKwargs blake3 kwargs = hashKwargs blake3 kwargs' → kwargs = kwargs') ∧
      ∃ kwargs', ¬ SameLayout kwargs kwargs' ∧ hashKwargs blake3 kwargs = hashKwargs blake3 kwargs' :=
  ⟨fun _ hlayout hdigest => hlayout.eq_of_updates (hblake3 hdigest), exists_collision blake3 kwargs⟩

/-- An image of one row, or of one column. -/
def grayImage (width height : ℕ) (pixels : List UInt8) (h : pixels.length = width * height) : Value :=
  .leaf (.image ⟨.l, width, height, pixels, h⟩)

/-- One keyword argument. -/
def oneKwarg (key : String) (v : Value) : Kwargs := ⟨[(key, v)], List.nodup_singleton key⟩

theorem digest_separates_rows :
    SameLayout (oneKwarg "image" (grayImage 2 1 [0, 1] rfl)) (oneKwarg "image" (grayImage 2 1 [1, 0] rfl)) ∧
      (hashKwargs id (oneKwarg "image" (grayImage 2 1 [0, 1] rfl)) =
          hashKwargs id (oneKwarg "image" (grayImage 2 1 [1, 0] rfl)) →
        oneKwarg "image" (grayImage 2 1 [0, 1] rfl) = oneKwarg "image" (grayImage 2 1 [1, 0] rfl)) :=
  ⟨rfl, (digest_separates Function.injective_id _).1 _ rfl⟩

/-- A row and a column of the same pixels have the same digest. -/
theorem digest_of_row_and_column :
    hashKwargs id (oneKwarg "image" (grayImage 2 1 [0, 1] rfl)) =
        hashKwargs id (oneKwarg "image" (grayImage 1 2 [0, 1] rfl)) ∧
      oneKwarg "image" (grayImage 2 1 [0, 1] rfl) ≠ oneKwarg "image" (grayImage 1 2 [0, 1] rfl) := by
  refine ⟨rfl, fun h => ?_⟩
  have hlayout := congrArg (fun kwargs : Kwargs => entriesLayout kwargs.entries) h
  cases hlayout

end MultiModalHasher

end SpaceServe
