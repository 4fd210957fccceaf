/-
The labels of kernel devices that share a rule.

`patches/seL4/0003` builds the label of a region, and of an interrupt, from the rule's
label and the name of the device's node.  The name goes in without its unit address, in
upper case and with `_` for whatever is neither a letter nor a digit.
-/
import Mathlib

namespace TensorSel4
namespace Kernel

/-- A node of the device tree.  Its path is ASCII, and no other node has it. -/
structure Node where
  path : List Char
  ascii : ∀ c ∈ path, c.toNat < 128

/-- `path.split('/')[-1].split('@')[0]`. -/
def Node.baseName (node : Node) : List Char :=
  (((node.path.splitOn '/').getLast?.getD []).splitOn '@').head?.getD []

/-- A character of a label, after `upper`. -/
def labelChar (c : Char) : Char :=
  if c.toUpper.isAlphanum then c.toUpper else '_'

structure DeviceRule where
  perInstance : Bool

namespace DeviceRule

def instanceLabel (rule : DeviceRule) (node : Node) (label : List Char) (atFront : Bool) :
    List Char :=
  if !rule.perInstance then label
  else
    let name := node.baseName.map labelChar
    if atFront then name ++ '_' :: label else label ++ '_' :: name

/-- The label of a region, in `get_regions`. -/
def kernelName (rule : DeviceRule) (node : Node) (kernel : List Char) : List Char :=
  rule.instanceLabel node kernel true

/-- The label of an interrupt, in `get_interrupts`. -/
def interruptName (rule : DeviceRule) (node : Node) (name : List Char) : List Char :=
  rule.instanceLabel node name false

end DeviceRule

/-! ## What the labels keep of a name -/

/-- Characters with one character of a label: two cases of a letter, or neither a letter
nor a digit. -/
def Alike (c d : Char) : Prop :=
  c.toUpper = d.toUpper ∨ (c.isAlphanum = false ∧ d.isAlphanum = false)

instance (c d : Char) : Decidable (Alike c d) := inferInstanceAs (Decidable (_ ∨ _))

/-- The names have different lengths, or characters that are not alike in one place. -/
def ToldApart (a b : Node) : Prop :=
  a.baseName.length ≠ b.baseName.length ∨ ∃ p ∈ a.baseName.zip b.baseName, ¬ Alike p.1 p.2

theorem isAlphanum_toUpper (c : Char) : c.toUpper.isAlphanum = c.isAlphanum := by
  by_cases h : c.isLower
  · have halpha : c.isAlpha = true := by simp [Char.isAlpha, h]
    rw [Char.isAlphanum, Char.isAlphanum, Char.isAlpha_toUpper_eq_isAlpha, halpha, Bool.true_or,
      Bool.true_or]
  · rw [Char.toUpper_eq_of_not_isLower h]

theorem labelChar_of_alphanum {c : Char} (h : c.isAlphanum = true) : labelChar c = c.toUpper := by
  rw [labelChar, isAlphanum_toUpper, if_pos h]

theorem labelChar_of_other {c : Char} (h : c.isAlphanum = false) : labelChar c = '_' := by
  rw [labelChar, isAlphanum_toUpper, h]
  rfl

theorem labelChar_isAlphanum (c : Char) : (labelChar c).isAlphanum = c.isAlphanum := by
  cases h : c.isAlphanum with
  | true => rw [labelChar_of_alphanum h, isAlphanum_toUpper, h]
  | false =>
    rw [labelChar_of_other h]
    rfl

theorem labelChar_eq_iff (c d : Char) : labelChar c = labelChar d ↔ Alike c d := by
  constructor
  · intro h
    have halnum := congrArg Char.isAlphanum h
    rw [labelChar_isAlphanum, labelChar_isAlphanum] at halnum
    cases hc : c.isAlphanum with
    | true =>
      rw [labelChar_of_alphanum hc, labelChar_of_alphanum (halnum ▸ hc)] at h
      exact .inl h
    | false => exact .inr ⟨hc, halnum ▸ hc⟩
  · rintro (h | ⟨hc, hd⟩)
    · rw [labelChar, labelChar, h]
    · rw [labelChar_of_other hc, labelChar_of_other hd]

theorem map_labelChar_iff (u v : List Char) :
    u.map labelChar = v.map labelChar ↔ List.Forall₂ Alike u v := by
  rw [← List.forall₂_eq_eq_eq, List.forall₂_map_left_iff, List.forall₂_map_right_iff]
  simp only [labelChar_eq_iff]

theorem toldApart_iff (a b : Node) :
    ToldApart a b ↔ a.baseName.map labelChar ≠ b.baseName.map labelChar := by
  rw [ToldApart, ne_eq, ne_eq, map_labelChar_iff, List.forall₂_iff_zip,
    Classical.not_and_iff_not_or_not]
  simp

instance (a b : Node) : Decidable (ToldApart a b) :=
  decidable_of_iff (a.baseName.map labelChar ≠ b.baseName.map labelChar) (toldApart_iff a b).symm

/-! ## The labels of the instances -/

namespace DeviceRule

variable {rule : DeviceRule}

theorem instanceLabel_inj (h : rule.perInstance = true) (label : List Char) (atFront : Bool)
    (a b : Node) : rule.instanceLabel a label atFront = rule.instanceLabel b label atFront ↔
      a.baseName.map labelChar = b.baseName.map labelChar := by
  cases atFront with
  | true => simp [instanceLabel, h]
  | false => simp [instanceLabel, h]

/-- Without `per_instance` every device has the rule's own label. -/
theorem instanceLabel_shared (h : rule.perInstance = false) (label : List Char) (atFront : Bool)
    (node : Node) : rule.instanceLabel node label atFront = label := by
  rw [instanceLabel, h]
  rfl

/-- Two devices have one label whatever their unit addresses are. -/
theorem instanceLabel_of_baseName {a b : Node} (h : a.baseName = b.baseName) (label : List Char)
    (atFront : Bool) : rule.instanceLabel a label atFront = rule.instanceLabel b label atFront := by
  rw [instanceLabel, instanceLabel, h]

end DeviceRule

/-- The instances of a rule have distinct labels exactly when their names are told apart,
in front of a region's label as behind an interrupt's. -/
theorem instance_labels_distinct_iff (rule : DeviceRule) (h : rule.perInstance = true)
    (nodes : List Node) (label : List Char) :
    ((nodes.map fun node => rule.kernelName node label).Nodup ↔ nodes.Pairwise ToldApart) ∧
      ((nodes.map fun node => rule.interruptName node label).Nodup ↔
        nodes.Pairwise ToldApart) := by
  have hsame (atFront : Bool) :
      (nodes.map fun node => rule.instanceLabel node label atFront).Nodup ↔
        nodes.Pairwise ToldApart := by
    rw [List.Nodup, List.pairwise_map]
    apply List.Pairwise.iff
    intro a b
    rw [toldApart_iff, ne_eq, ne_eq, DeviceRule.instanceLabel_inj h]
  exact ⟨hsame true, hsame false⟩

/-! The S2MPUs of the Tensor G4: nodes of its device tree, and two nodes that would have the
same generic name. -/

theorem hsi1_ascii : ∀ c ∈ "/s2mpu_s0_hsi1@12090000".toList, c.toNat < 128 := by simp

theorem hsi2_ascii : ∀ c ∈ "/s2mpu_s0_hsi2@131f0000".toList, c.toNat < 128 := by simp

theorem generic1_ascii : ∀ c ∈ "/s2mpu@12090000".toList, c.toNat < 128 := by simp

theorem generic2_ascii : ∀ c ∈ "/s2mpu@131f0000".toList, c.toNat < 128 := by simp

def hsi1 : Node := ⟨"/s2mpu_s0_hsi1@12090000".toList, hsi1_ascii⟩

def hsi2 : Node := ⟨"/s2mpu_s0_hsi2@131f0000".toList, hsi2_ascii⟩

def generic1 : Node := ⟨"/s2mpu@12090000".toList, generic1_ascii⟩

def generic2 : Node := ⟨"/s2mpu@131f0000".toList, generic2_ascii⟩

def s2mpuRule : DeviceRule := ⟨true⟩

theorem instance_labels_distinct_iff_hsi :
    ([hsi1, hsi2].map fun node => s2mpuRule.kernelName node "PPTR".toList).Nodup :=
  (instance_labels_distinct_iff s2mpuRule rfl [hsi1, hsi2] "PPTR".toList).1.mpr (by decide)

/-- The nodes differ in the unit address only. -/
theorem unit_address_not_in_label : generic1.path ≠ generic2.path ∧
    ([generic1, generic2].map fun node => s2mpuRule.kernelName node "PPTR".toList) =
      ["S2MPU_PPTR".toList, "S2MPU_PPTR".toList] ∧
    ([generic1, generic2].map fun node => s2mpuRule.interruptName node "INTERRUPT".toList) =
      ["INTERRUPT_S2MPU".toList, "INTERRUPT_S2MPU".toList] := by
  decide

end Kernel
end TensorSel4
