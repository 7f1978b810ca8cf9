import Mathlib.Data.List.TakeWhile
import TemplateLint.Syntax.Name

/-!
# Tag names and their written forms

Two tag names are alike if they have the same form and the same parts, wherever they stand
(`TagName.Alike`). If the marks between parts do not occur in parts (`TagName.IsPlain`), the written
form tells unlike names apart (`TagName.render_eq_iff`), and it starts with the part that can name
a variable (`TagName.root_eq`).
-/

namespace TemplateLint.Syntax

namespace TagName

/-- The same form and the same parts. -/
def Alike : TagName → TagName → Prop
  | .simple id, .simple id' => id.name = id'.name
  | .namespaced space name, .namespaced space' name' =>
    space.name = space'.name ∧ name.name = name'.name
  | .member object property, .member object' property' =>
    object.Alike object' ∧ property.name = property'.name
  | _, _ => False

def isSeparator (c : Char) : Bool := c == ':' || c == '.'

/-- A part of a tag name has no separators in it. -/
def IsPlainPart (id : Ident) : Prop := ∀ c ∈ id.name.toList, isSeparator c = false

/-- No part has a mark in it that stands between parts. -/
def IsPlain : TagName → Prop
  | .simple id => IsPlainPart id
  | .namespaced space name => IsPlainPart space ∧ IsPlainPart name
  | .member object property => object.IsPlain ∧ IsPlainPart property

theorem IsPlainPart.not_mem {id : Ident} (plain : IsPlainPart id) {c : Char}
    (separates : isSeparator c = true) : c ∉ id.name.toList := by
  intro member
  rw [plain c member] at separates
  cases separates

/-! ## Written forms -/

/-- The last occurrence of a mark parts a text in one way. -/
theorem append_inj_of_not_mem {c : Char} {front front' back back' : List Char}
    (free : c ∉ back) (free' : c ∉ back') (same : front ++ c :: back = front' ++ c :: back') :
    front = front' ∧ back = back' := by
  have split : ∀ {front front' back back' : List Char}, c ∉ back →
      (∃ between, front' = front ++ between ∧ c :: back = between ++ c :: back') →
      front = front' ∧ back = back' := by
    rintro front front' back back' free ⟨between, rfl, rest⟩
    cases between with
    | nil => exact ⟨(List.append_nil front).symm, (List.cons.inj rest).2⟩
    | cons first others =>
      rw [(List.cons.inj rest).2] at free
      exact absurd (List.mem_append_right others (.head back')) free
  rcases List.append_eq_append_iff.1 same with longer | ⟨between, shorter, rest⟩
  · exact split free longer
  · obtain ⟨fronts, backs⟩ := split free' ⟨between, shorter, rest⟩
    exact ⟨fronts.symm, backs.symm⟩

theorem toList_render_namespaced (space name : Ident) :
    (namespaced space name).render.toList = space.name.toList ++ ':' :: name.name.toList := by
  simp [render]

theorem toList_render_member (object : TagName) (property : Ident) :
    (member object property).render.toList =
      object.render.toList ++ '.' :: property.name.toList := by
  simp [render]

theorem not_mem_render_simple {id : Ident} (plain : IsPlainPart id) {c : Char}
    (separates : isSeparator c = true) : c ∉ (simple id).render.toList :=
  plain.not_mem separates

theorem not_mem_render_namespaced {space name : Ident}
    (plain : (namespaced space name).IsPlain) : '.' ∉ (namespaced space name).render.toList := by
  simp only [toList_render_namespaced, List.mem_append, List.mem_cons, not_or]
  exact ⟨plain.1.not_mem rfl, by decide, plain.2.not_mem rfl⟩

theorem mem_render_namespaced (space name : Ident) :
    ':' ∈ (namespaced space name).render.toList := by
  simp [toList_render_namespaced]

theorem mem_render_member (object : TagName) (property : Ident) :
    '.' ∈ (member object property).render.toList := by
  simp [toList_render_member]

/-- The induction is on the first name; the marks in a written form tell which form the second one
has. -/
theorem alike_of_render_eq {name other : TagName} (plain : name.IsPlain) (plain' : other.IsPlain)
    (same : name.render = other.render) : name.Alike other := by
  induction name generalizing other with
  | simple id =>
    have free : ∀ {c}, isSeparator c = true → c ∉ other.render.toList :=
      same ▸ not_mem_render_simple plain
    cases other with
    | simple => exact same
    | namespaced space name => exact absurd (mem_render_namespaced space name) (free rfl)
    | member object property => exact absurd (mem_render_member object property) (free rfl)
  | namespaced space name =>
    have marked : ':' ∈ other.render.toList := same ▸ mem_render_namespaced space name
    have free : '.' ∉ other.render.toList := same ▸ not_mem_render_namespaced plain
    cases other with
    | simple => exact absurd marked (not_mem_render_simple plain' rfl)
    | namespaced space' name' =>
      rw [← String.toList_inj, toList_render_namespaced, toList_render_namespaced] at same
      obtain ⟨spaces, names⟩ :=
        append_inj_of_not_mem (plain.2.not_mem rfl) (plain'.2.not_mem rfl) same
      exact ⟨String.toList_inj.1 spaces, String.toList_inj.1 names⟩
    | member object property => exact absurd (mem_render_member object property) free
  | member object property ih =>
    have marked : '.' ∈ other.render.toList := same ▸ mem_render_member object property
    cases other with
    | simple => exact absurd marked (not_mem_render_simple plain' rfl)
    | namespaced => exact absurd marked (not_mem_render_namespaced plain')
    | member object' property' =>
      rw [← String.toList_inj, toList_render_member, toList_render_member] at same
      obtain ⟨objects, properties⟩ :=
        append_inj_of_not_mem (plain.2.not_mem rfl) (plain'.2.not_mem rfl) same
      exact ⟨ih plain.1 plain'.1 (String.toList_inj.1 objects), String.toList_inj.1 properties⟩

theorem Alike.render_eq {name other : TagName} (alike : name.Alike other) :
    name.render = other.render := by
  induction name generalizing other with
  | simple id =>
    cases other with
    | simple => exact alike
    | _ => cases alike
  | namespaced space name =>
    cases other with
    | namespaced space' name' => rw [render, render, alike.1, alike.2]
    | _ => cases alike
  | member object property ih =>
    cases other with
    | member object' property' => rw [render, render, ih alike.1, alike.2]
    | _ => cases alike

/-- **Written forms are equal exactly if the names are alike.** -/
theorem render_eq_iff {name other : TagName} (plain : name.IsPlain) (plain' : other.IsPlain) :
    name.render = other.render ↔ name.Alike other :=
  ⟨alike_of_render_eq plain plain', Alike.render_eq⟩

/-! ## Roots -/

theorem takeWhile_append_cons {p : Char → Bool} {mark : Char} (stops : p mark = false)
    (front back : List Char) : (front ++ mark :: back).takeWhile p = front.takeWhile p := by
  induction front with
  | nil => simp [stops]
  | cons c rest ih => simp [List.takeWhile_cons, ih]

theorem IsPlainPart.takeWhile_eq {id : Ident} (plain : IsPlainPart id) :
    (id.name.toList.takeWhile fun c => !isSeparator c) = id.name.toList := by
  rw [List.takeWhile_eq_self_iff]
  intro c member
  rw [plain c member]
  rfl

/-- **The part that can name a variable is what stands before the first mark.** -/
theorem root_eq {name : TagName} (plain : name.IsPlain) :
    name.root.toList = name.render.toList.takeWhile fun c => !isSeparator c := by
  induction name with
  | simple id => exact (IsPlainPart.takeWhile_eq plain).symm
  | namespaced space name =>
    rw [root, toList_render_namespaced, takeWhile_append_cons (by decide), plain.1.takeWhile_eq]
  | member object property ih =>
    rw [root, toList_render_member, takeWhile_append_cons (by decide), ih plain.1]

end TagName

end TemplateLint.Syntax
