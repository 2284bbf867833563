import LibApta.Lib.LittleEndian
import LibApta.Lib.Utf8
import Mathlib.Algebra.BigOperators.Group.List.Basic

/-!
# Data items in their shortest encoding

A data item of the concise binary object representation is a number, a string, a sequence of items, a
map, a tagged item, a simple value or a floating-point number. Its encoding starts with a head: the
major type and an argument that takes the fewest bytes that hold it. The encodings are prefix-free:
a byte string starts with the encoding of at most one item. The encodings of greater numbers are
greater in the bytewise lexicographic order, the order of the keys of a map.
-/

namespace LibApta.Cbor

open LittleEndian

/-! ## Heads -/

/-- A number as bytes, most significant byte first. -/
def bigEndianBytes (width value : ℕ) : List UInt8 := (encode width value).reverse

@[simp] theorem length_bigEndianBytes (width value : ℕ) :
    (bigEndianBytes width value).length = width := by
  rw [bigEndianBytes, List.length_reverse, length_encode]

/-- A number reads back. -/
theorem number_bigEndianBytes {width value : ℕ} (h : value < 256 ^ width) :
    number (bigEndianBytes width value).reverse = value := by
  rw [bigEndianBytes, List.reverse_reverse, number_encode h]

/-- The bytes of a number that was read are the bytes it was read from. -/
theorem bigEndianBytes_number (bytes : List UInt8) :
    bigEndianBytes bytes.length (number bytes.reverse) = bytes := by
  have hencode := encode_number bytes.reverse
  rw [List.length_reverse] at hencode
  rw [bigEndianBytes, hencode, List.reverse_reverse]

/-- The low bits of the first byte of a head, and the bytes of the argument after it. -/
def argument (value : ℕ) : ℕ × List UInt8 :=
  if value < 24 then (value, [])
  else if value < 256 then (24, bigEndianBytes 1 value)
  else if value < 65536 then (25, bigEndianBytes 2 value)
  else if value < 4294967296 then (26, bigEndianBytes 4 value)
  else (27, bigEndianBytes 8 value)

/-- A major type with its argument. -/
def head (major value : ℕ) : List UInt8 :=
  UInt8.ofNat (32 * major + (argument value).1) :: (argument value).2

theorem argument_lt (value : ℕ) : (argument value).1 < 28 := by
  unfold argument
  split_ifs <;> simp only <;> omega

/-- Equal arguments are of equal numbers. -/
theorem argument_append_inj {value value' : ℕ} {rest rest' : List UInt8}
    (hvalue : value < 18446744073709551616) (hvalue' : value' < 18446744073709551616)
    (hadditional : (argument value).1 = (argument value').1)
    (hbytes : (argument value).2 ++ rest = (argument value').2 ++ rest') :
    value = value' ∧ rest = rest' := by
  have hwide {width : ℕ} (h : value < 256 ^ width) (h' : value' < 256 ^ width)
      (hbytes : bigEndianBytes width value ++ rest = bigEndianBytes width value' ++ rest') :
      value = value' ∧ rest = rest' := by
    obtain ⟨hnumber, hrest⟩ := List.append_inj hbytes (by simp)
    refine ⟨?_, hrest⟩
    rw [← number_bigEndianBytes h, hnumber, number_bigEndianBytes h']
  unfold argument at hadditional hbytes
  split_ifs at hadditional hbytes
  case pos => exact ⟨hadditional, hbytes⟩
  all_goals first
    | omega
    | exact hwide (by omega) (by omega) hbytes

/-- A byte string starts with at most one head. -/
theorem head_append_inj {major major' value value' : ℕ} {rest rest' : List UInt8}
    (hmajor : major < 8) (hmajor' : major' < 8)
    (hvalue : value < 18446744073709551616) (hvalue' : value' < 18446744073709551616)
    (h : head major value ++ rest = head major' value' ++ rest') :
    major = major' ∧ value = value' ∧ rest = rest' := by
  obtain ⟨hfirst, hbytes⟩ := List.cons.inj h
  have hlow := argument_lt value
  have hlow' := argument_lt value'
  have hsum := congrArg UInt8.toNat hfirst
  rw [UInt8.toNat_ofNat', UInt8.toNat_ofNat'] at hsum
  have hadditional : (argument value).1 = (argument value').1 := by omega
  exact ⟨by omega, argument_append_inj hvalue hvalue' hadditional hbytes⟩

/-! ## The order of the heads -/

theorem bigEndianBytes_succ (width value : ℕ) :
    bigEndianBytes (width + 1) value =
      bigEndianBytes width (value / 256) ++ [UInt8.ofNat value] := by
  rw [bigEndianBytes, encode, List.reverse_cons, bigEndianBytes]

/-- Strings of one length are in order if they are before a common or greater continuation. -/
theorem append_lt_append {a b c d : List UInt8} (hlength : a.length = b.length)
    (h : a < b ∨ a = b ∧ c < d) : a ++ c < b ++ d := by
  induction a generalizing b with
  | nil =>
      obtain rfl := List.eq_nil_of_length_eq_zero hlength.symm
      exact (h.resolve_left (List.lt_irrefl [])).2
  | cons first a ih =>
      cases b with
      | nil => cases hlength
      | cons first' b =>
          rw [List.cons_append, List.cons_append, List.cons_lt_cons_iff]
          rw [List.cons_lt_cons_iff, List.cons.injEq] at h
          simp only [List.length_cons, Nat.add_right_cancel_iff] at hlength
          rcases h with (hlt | ⟨rfl, hlt⟩) | ⟨⟨rfl, rfl⟩, hlt⟩
          · exact .inl hlt
          · exact .inr ⟨rfl, ih hlength (.inl hlt)⟩
          · exact .inr ⟨rfl, ih hlength (.inr ⟨rfl, hlt⟩)⟩

/-- The greater of two numbers of one width has the greater bytes. -/
theorem bigEndianBytes_lt {width value value' : ℕ} (h : value < value')
    (hvalue' : value' < 256 ^ width) :
    bigEndianBytes width value < bigEndianBytes width value' := by
  induction width generalizing value value' with
  | zero =>
      rw [pow_zero] at hvalue'
      omega
  | succ width ih =>
      rw [pow_succ] at hvalue'
      rw [bigEndianBytes_succ, bigEndianBytes_succ]
      refine append_lt_append (by simp) ?_
      rcases (Nat.div_le_div_right (c := 256) h.le).lt_or_eq with hlt | heq
      · exact .inl (ih hlt (by omega))
      · refine .inr ⟨by rw [heq], ?_⟩
        rw [List.cons_lt_cons_iff, UInt8.lt_iff_toNat_lt, UInt8.toNat_ofNat', UInt8.toNat_ofNat']
        left
        omega

/-- The greater of two numbers has the greater head. -/
theorem head_lt {major value value' : ℕ} (h : value < value')
    (hvalue' : value' < 18446744073709551616) : head major value < head major value' := by
  have hlow := argument_lt value
  have hlow' := argument_lt value'
  have horder : (argument value).1 < (argument value').1 ∨
      (argument value).1 = (argument value').1 ∧ (argument value).2 < (argument value').2 := by
    unfold argument
    split_ifs
    all_goals simp only [lt_self_iff_false, false_or, true_and, List.not_lt_nil]
    all_goals first
      | omega
      | exact bigEndianBytes_lt h (by omega)
  rw [head, head, List.cons_lt_cons_iff, UInt8.lt_iff_toNat_lt, UInt8.toNat_ofNat',
    UInt8.toNat_ofNat']
  rcases horder with hlt | ⟨heq, hlt⟩
  · left
    omega
  · exact .inr ⟨by rw [heq], hlt⟩

/-! ## Items -/

/-- A data item. -/
inductive Item where
  | unsigned (value : ℕ)
  | negative (value : ℕ)
  | bytes (content : List UInt8)
  | text (content : List UInt8)
  | array (items : List Item)
  | map (entries : List (Item × Item))
  | tag (value : ℕ) (item : Item)
  | simple (value : ℕ)
  | float (content : List UInt8)

namespace Item

/-- The items an item is made of. -/
def children : Item → List Item
  | .array items => items
  | .map entries => entries.flatMap fun entry => [entry.1, entry.2]
  | .tag _ item => [item]
  | _ => []

/-- The first bytes of a floating-point number, by the bytes it takes. -/
def floatLead (width : ℕ) : UInt8 := if width = 2 then 249 else if width = 4 then 250 else 251

/-- The bytes of an item before its parts. -/
def lead : Item → List UInt8
  | .unsigned value => head 0 value
  | .negative value => head 1 value
  | .bytes content => head 2 content.length ++ content
  | .text content => head 3 content.length ++ content
  | .array items => head 4 items.length
  | .map entries => head 5 entries.length
  | .tag value _ => head 6 value
  | .simple value => if value < 24 then [UInt8.ofNat (224 + value)] else [248, UInt8.ofNat value]
  | .float content => floatLead content.length :: content

section Collect

variable {α : Type} (own : Item → List α)

mutual

/-- What an item gives itself, and then what its parts give. -/
def collect : Item → List α
  | .array items => own (.array items) ++ collectAll items
  | .map entries => own (.map entries) ++ collectEntries entries
  | .tag value item => own (.tag value item) ++ collect item
  | .unsigned value => own (.unsigned value)
  | .negative value => own (.negative value)
  | .bytes content => own (.bytes content)
  | .text content => own (.text content)
  | .simple value => own (.simple value)
  | .float content => own (.float content)

@[inherit_doc collect] def collectAll : List Item → List α
  | [] => []
  | item :: rest => collect item ++ collectAll rest

@[inherit_doc collect] def collectEntries : List (Item × Item) → List α
  | [] => []
  | (key, value) :: rest => collect key ++ (collect value ++ collectEntries rest)

end

theorem collectAll_eq (items : List Item) :
    collectAll own items = items.flatMap (collect own) := by
  induction items with
  | nil => rfl
  | cons item rest ih => rw [collectAll, ih, List.flatMap_cons]

theorem collectEntries_eq (entries : List (Item × Item)) :
    collectEntries own entries =
      (entries.flatMap fun entry => [entry.1, entry.2]).flatMap (collect own) := by
  induction entries with
  | nil => rfl
  | cons entry rest ih => simp [collectEntries, ih]

theorem collect_eq (item : Item) :
    item.collect own = own item ++ item.children.flatMap (collect own) := by
  cases item with
  | array items => rw [collect, collectAll_eq, children]
  | map entries => rw [collect, collectEntries_eq, children]
  | tag value item => rw [collect, children, List.flatMap_cons, List.flatMap_nil, List.append_nil]
  | _ => exact (List.append_nil _).symm

end Collect

/-- The encoding of an item: the bytes of the item itself, and then those of its parts. -/
def encode : Item → List UInt8 := collect lead

theorem encode_eq (item : Item) : item.encode = item.lead ++ item.children.flatMap encode :=
  collect_eq lead item

/-- An item and the items in it. -/
def subitems : Item → List Item := collect fun item => [item]

theorem subitems_eq (item : Item) : item.subitems = item :: item.children.flatMap subitems :=
  collect_eq _ item

/-- A property of the items in an item, by its parts. -/
theorem forall_subitems_iff {p : Item → Prop} {item : Item} :
    (∀ part ∈ item.subitems, p part) ↔
      p item ∧ ∀ child ∈ item.children, ∀ part ∈ child.subitems, p part := by
  rw [subitems_eq, List.forall_mem_cons]
  simp only [List.mem_flatMap, forall_exists_index, and_imp]
  exact and_congr_right fun _ => ⟨fun h child hchild part hpart => h part child hchild hpart,
    fun h part child hchild hpart => h child hchild part hpart⟩

/-- The nesting of an item takes at most so many levels. -/
def Within : ℕ → Item → Prop
  | 0, _ => False
  | depth + 1, item => ∀ child ∈ item.children, Within depth child

/-- What holds of an item when it holds of its parts holds of every item. -/
theorem induction_on_children {motive : Item → Prop}
    (step : ∀ item : Item, (∀ child ∈ item.children, motive child) → motive item) (item : Item) :
    motive item := by
  have hall := @Item.rec motive (fun items => ∀ item ∈ items, motive item)
    (fun entries => ∀ entry ∈ entries, motive entry.1 ∧ motive entry.2)
    (fun entry => motive entry.1 ∧ motive entry.2)
  refine hall (fun _ => step _ ?_) (fun _ => step _ ?_) (fun _ => step _ ?_) (fun _ => step _ ?_)
    (fun items h => step _ h) (fun entries h => step _ ?_) (fun _ item h => step _ ?_)
    (fun _ => step _ ?_) (fun _ => step _ ?_) ?_ (fun item rest h hrest => ?_) ?_
    (fun entry rest h hrest => ?_) (fun _ _ h h' => ⟨h, h'⟩) item
  case refine_5 =>
    intro child hchild
    obtain ⟨entry, hentry, hmem⟩ := List.mem_flatMap.mp hchild
    rcases List.mem_cons.mp hmem with rfl | hmem
    · exact (h entry hentry).1
    · exact List.mem_singleton.mp hmem ▸ (h entry hentry).2
  case refine_6 =>
    intro child hchild
    exact List.mem_singleton.mp hchild ▸ h
  case refine_10 => exact List.forall_mem_cons.mpr ⟨h, hrest⟩
  case refine_12 => exact List.forall_mem_cons.mpr ⟨h, hrest⟩
  all_goals exact fun _ h => absurd h List.not_mem_nil

/-- The arguments of the item itself fit a head. -/
def Fits : Item → Prop
  | .unsigned value | .negative value | .tag value _ => value < 18446744073709551616
  | .bytes content | .text content => content.length < 18446744073709551616
  | .array items => items.length < 18446744073709551616
  | .map entries => entries.length < 18446744073709551616
  | .simple value => value < 24 ∨ 32 ≤ value ∧ value < 256
  | .float content => content.length = 2 ∨ content.length = 4 ∨ content.length = 8

/-! ## One item at most -/

/-- The major type of an item. -/
def major : Item → ℕ
  | .unsigned _ => 0
  | .negative _ => 1
  | .bytes _ => 2
  | .text _ => 3
  | .array _ => 4
  | .map _ => 5
  | .tag _ _ => 6
  | .simple _ | .float _ => 7

/-- The items are the same but for their parts, of which they have the same number. -/
def Alike : Item → Item → Prop
  | .array items, .array items' => items.length = items'.length
  | .map entries, .map entries' => entries.length = entries'.length
  | .tag value _, .tag value' _ => value = value'
  | .unsigned value, .unsigned value' => value = value'
  | .negative value, .negative value' => value = value'
  | .bytes content, .bytes content' => content = content'
  | .text content, .text content' => content = content'
  | .simple value, .simple value' => value = value'
  | .float content, .float content' => content = content'
  | _, _ => False

theorem floatLead_toNat {width : ℕ} (h : width = 2 ∨ width = 4 ∨ width = 8) :
    (floatLead width).toNat = if width = 2 then 249 else if width = 4 then 250 else 251 := by
  rcases h with rfl | rfl | rfl <;> rfl

/-- The first byte of an item tells its major type. -/
theorem lead_first {item : Item} (h : item.Fits) :
    ∃ first rest, item.lead = first :: rest ∧ first.toNat / 32 = item.major := by
  have hhead (major value : ℕ) (hmajor : major < 8) :
      (UInt8.ofNat (32 * major + (argument value).1)).toNat / 32 = major := by
    have hlow := argument_lt value
    rw [UInt8.toNat_ofNat']
    omega
  cases item with
  | unsigned value => exact ⟨_, _, rfl, hhead 0 value (by omega)⟩
  | negative value => exact ⟨_, _, rfl, hhead 1 value (by omega)⟩
  | bytes content => exact ⟨_, _, rfl, hhead 2 content.length (by omega)⟩
  | text content => exact ⟨_, _, rfl, hhead 3 content.length (by omega)⟩
  | array items => exact ⟨_, _, rfl, hhead 4 items.length (by omega)⟩
  | map entries => exact ⟨_, _, rfl, hhead 5 entries.length (by omega)⟩
  | tag value _ => exact ⟨_, _, rfl, hhead 6 value (by omega)⟩
  | simple value =>
      by_cases hvalue : value < 24
      · refine ⟨_, _, if_pos hvalue, ?_⟩
        rw [UInt8.toNat_ofNat', major]
        omega
      · exact ⟨_, _, if_neg hvalue, rfl⟩
  | float content =>
      refine ⟨_, _, rfl, ?_⟩
      rw [floatLead_toNat h, major]
      split_ifs <;> rfl

/-- The bytes of an item before its parts tell the item but for its parts. -/
theorem lead_append_inj {a b : Item} {rest rest' : List UInt8} (ha : a.Fits) (hb : b.Fits)
    (h : a.lead ++ rest = b.lead ++ rest') : Alike a b ∧ rest = rest' := by
  have hmajor : a.major = b.major := by
    obtain ⟨first, tail, hlead, hfirst⟩ := lead_first ha
    obtain ⟨first', tail', hlead', hfirst'⟩ := lead_first hb
    rw [hlead, hlead'] at h
    rw [← hfirst, ← hfirst', (List.cons.inj h).1]
  have hnumber {major value value' : ℕ} {rest rest' : List UInt8} (hlt : major < 8)
      (hvalue : value < 18446744073709551616) (hvalue' : value' < 18446744073709551616)
      (h : head major value ++ rest = head major value' ++ rest') : value = value' ∧ rest = rest' :=
    (head_append_inj hlt hlt hvalue hvalue' h).2
  have hstring {major : ℕ} {content content' : List UInt8} (hlt : major < 8)
      (hvalue : content.length < 18446744073709551616)
      (hvalue' : content'.length < 18446744073709551616)
      (h : head major content.length ++ content ++ rest =
        head major content'.length ++ content' ++ rest') : content = content' ∧ rest = rest' := by
    rw [List.append_assoc, List.append_assoc] at h
    obtain ⟨hlength, h⟩ := hnumber hlt hvalue hvalue' h
    exact List.append_inj h hlength
  cases a <;> cases b <;> simp [major] at hmajor
  case unsigned.unsigned => exact hnumber (by omega) ha hb h
  case negative.negative => exact hnumber (by omega) ha hb h
  case bytes.bytes => exact hstring (by omega) ha hb h
  case text.text => exact hstring (by omega) ha hb h
  case array.array => exact hnumber (by omega) ha hb h
  case map.map => exact hnumber (by omega) ha hb h
  case tag.tag => exact hnumber (by omega) ha hb h
  case simple.simple value value' =>
    have hvalue : value < 24 ∨ 32 ≤ value ∧ value < 256 := ha
    have hvalue' : value' < 24 ∨ 32 ≤ value' ∧ value' < 256 := hb
    simp only [lead] at h
    split_ifs at h
    all_goals
      simp only [List.cons_append, List.nil_append, List.cons.injEq, ← UInt8.toNat_inj,
        UInt8.toNat_ofNat', UInt8.reduceToNat] at h
      simp only [Alike]
      refine ⟨by omega, ?_⟩
      first
        | exact h.2
        | exact h.2.2
        | omega
  case simple.float value content =>
    have hvalue : value < 24 ∨ 32 ≤ value ∧ value < 256 := ha
    have hfirst := floatLead_toNat hb
    simp only [lead] at h
    split_ifs at h hfirst
    all_goals
      simp only [List.cons_append, List.nil_append, List.cons.injEq, ← UInt8.toNat_inj,
        UInt8.toNat_ofNat', UInt8.reduceToNat] at h
      omega
  case float.simple content value =>
    have hvalue : value < 24 ∨ 32 ≤ value ∧ value < 256 := hb
    have hfirst := floatLead_toNat ha
    simp only [lead] at h
    split_ifs at h hfirst
    all_goals
      simp only [List.cons_append, List.nil_append, List.cons.injEq, ← UInt8.toNat_inj,
        UInt8.toNat_ofNat', UInt8.reduceToNat] at h
      omega
  case float.float content content' =>
    have hlength : content.length = 2 ∨ content.length = 4 ∨ content.length = 8 := ha
    have hlength' : content'.length = 2 ∨ content'.length = 4 ∨ content'.length = 8 := hb
    have hfirst := floatLead_toNat ha
    have hfirst' := floatLead_toNat hb
    obtain ⟨hlead, hbytes⟩ := List.cons.inj h
    rw [hlead, hfirst'] at hfirst
    refine List.append_inj hbytes ?_
    split_ifs at hfirst <;> omega

theorem entries_eq_of_flatMap_eq {α : Type} {entries entries' : List (α × α)}
    (h : (entries.flatMap fun entry => [entry.1, entry.2]) =
      entries'.flatMap fun entry => [entry.1, entry.2]) : entries = entries' := by
  induction entries generalizing entries' with
  | nil =>
      cases entries' with
      | nil => rfl
      | cons _ _ => simp at h
  | cons entry rest ih =>
      cases entries' with
      | nil => simp at h
      | cons entry' rest' =>
          simp only [List.flatMap_cons, List.cons_append, List.nil_append, List.cons.injEq] at h
          rw [ih h.2.2, Prod.ext h.1 h.2.1]

/-- Alike items with the same parts are the same. -/
theorem Alike.eq {a b : Item} (h : Alike a b) (hchildren : a.children = b.children) : a = b := by
  unfold Alike at h
  split at h
  case h_10 => exact h.elim
  case h_2 => exact congrArg map (entries_eq_of_flatMap_eq hchildren)
  all_goals simp_all [children]

theorem Alike.length_children {a b : Item} (h : Alike a b) :
    a.children.length = b.children.length := by
  have hpairs (entries : List (Item × Item)) :
      (entries.flatMap fun entry => [entry.1, entry.2]).length = 2 * entries.length := by
    simp [List.length_flatMap, Nat.mul_comm]
  unfold Alike at h
  split at h
  case h_1 => exact h
  case h_2 => rw [children, children, hpairs, hpairs, h]
  case h_3 => rfl
  case h_10 => exact h.elim
  all_goals rfl

/-- All the arguments of an item fit their heads. -/
def Encodable (item : Item) : Prop := ∀ part ∈ item.subitems, part.Fits

theorem encodable_iff {item : Item} :
    item.Encodable ↔ item.Fits ∧ ∀ child ∈ item.children, child.Encodable :=
  forall_subitems_iff

/-- A byte string starts with the encoding of at most one item. -/
theorem encode_append_inj {a b : Item} {rest rest' : List UInt8} (ha : a.Encodable)
    (hb : b.Encodable) (h : a.encode ++ rest = b.encode ++ rest') : a = b ∧ rest = rest' := by
  induction a using induction_on_children generalizing b rest rest' with
  | step a ih =>
      rw [encodable_iff] at ha hb
      rw [encode_eq, encode_eq, List.append_assoc, List.append_assoc] at h
      obtain ⟨halike, h⟩ := lead_append_inj ha.1 hb.1 h
      -- the parts of the one are those of the other, one after the other
      have hparts : ∀ (parts parts' : List Item), (∀ part ∈ parts, part ∈ a.children) →
          (∀ part ∈ parts', part.Encodable) → parts.length = parts'.length →
          parts.flatMap encode ++ rest = parts'.flatMap encode ++ rest' →
          parts = parts' ∧ rest = rest' := by
        intro parts
        induction parts with
        | nil =>
            intro parts' _ _ hlength h
            obtain rfl := List.eq_nil_of_length_eq_zero hlength.symm
            exact ⟨rfl, h⟩
        | cons part parts ihparts =>
            intro parts' hmem hfit hlength h
            cases parts' with
            | nil => cases hlength
            | cons part' parts' =>
                rw [List.forall_mem_cons] at hmem hfit
                rw [List.flatMap_cons, List.flatMap_cons, List.append_assoc,
                  List.append_assoc] at h
                obtain ⟨rfl, htail⟩ := ih part hmem.1 (ha.2 part hmem.1) hfit.1 h
                obtain ⟨rfl, hrest⟩ := ihparts parts' hmem.2 hfit.2 (Nat.succ.inj hlength) htail
                exact ⟨rfl, hrest⟩
      obtain ⟨hchildren, hrest⟩ :=
        hparts a.children b.children (fun _ h => h) hb.2 halike.length_children h
      exact ⟨halike.eq hchildren, hrest⟩

/-! ## Deterministic items -/

/-- The keys of a map increase in the order of their encodings. -/
def Sorted : Item → Prop
  | .map entries => entries.IsChain fun earlier later => earlier.1.encode < later.1.encode
  | _ => True

/-- A text is well-formed. -/
def Readable : Item → Prop
  | .text content => Utf8.WellFormed content
  | _ => True

/-- Every argument fits its head, the keys of every map increase and every text is well-formed. -/
structure Deterministic (item : Item) : Prop where
  encodable : item.Encodable
  sorted : ∀ part ∈ item.subitems, part.Sorted
  readable : ∀ part ∈ item.subitems, part.Readable

end Item

end LibApta.Cbor
