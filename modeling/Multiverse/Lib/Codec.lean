import Multiverse.Lib.LittleEndian

/-! # Codecs

A serializable type comes with three operations written side by side: one
writes a value, one reads a value off the front of a byte string, and one
computes how many bytes a value takes. A codec is lawful on the values a
predicate admits when each of them is read back from what is written,
whatever bytes follow, and when the size it computes for any value is the
length written.

Two fields one after the other (`pair`), a sequence after its count
(`counted`), and a type kept through a conversion to and from another
(`convert`) keep lawfulness, so a codec built from these is lawful once its
parts are.
-/

/-- Writing a value, reading one back off the front of a byte string, and the
number of bytes a value takes. -/
structure Codec (α : Type) where
  save : α → List UInt8
  load : List UInt8 → Option (α × List UInt8)
  size : α → Nat

namespace Codec

variable {α β γ : Type}

/-- Each `valid` value is read back from its bytes, whatever follows them,
and the size of every value is the number of bytes written. -/
structure Lawful (c : Codec α) (valid : α → Prop) : Prop where
  load_save_append : ∀ a, valid a → ∀ rest, c.load (c.save a ++ rest) = some (a, rest)
  size_eq : ∀ a, c.size a = (c.save a).length

/-- The second field after the first. -/
def pair (ca : Codec α) (cb : Codec β) : Codec (α × β) where
  save p := ca.save p.1 ++ cb.save p.2
  load bs := do
    let (a, bs) ← ca.load bs
    let (b, bs) ← cb.load bs
    pure ((a, b), bs)
  size p := ca.size p.1 + cb.size p.2

/-- A sequence after its count, the count written by `count`. -/
def counted (count : Codec Nat) (c : Codec α) : Codec (List α) where
  save xs := count.save xs.length ++ xs.flatMap c.save
  load bs := do
    let (n, bs) ← count.load bs
    LittleEndian.readList c.load n bs
  size xs := count.size xs.length + (xs.map c.size).sum

/-- Values of `β` written as `g` of them and read back through `f`. -/
def convert (f : α → β) (g : β → α) (c : Codec α) : Codec β where
  save b := c.save (g b)
  load bs := (c.load bs).map fun p => (f p.1, p.2)
  size b := c.size (g b)

namespace Lawful

variable {c : Codec α} {valid : α → Prop}

theorem mono (hc : c.Lawful valid) {valid' : α → Prop} (h : ∀ a, valid' a → valid a) : c.Lawful valid' :=
  ⟨fun a ha => hc.load_save_append a (h a ha), hc.size_eq⟩

theorem pair {cb : Codec β} {valid' : β → Prop} (ha : c.Lawful valid) (hb : cb.Lawful valid') :
    (c.pair cb).Lawful fun p => valid p.1 ∧ valid' p.2 := by
  constructor
  · rintro ⟨a, b⟩ ⟨hva, hvb⟩ rest
    simp only [Codec.pair, List.append_assoc, ha.load_save_append a hva, hb.load_save_append b hvb,
      Option.bind_eq_bind, Option.bind_some, Option.pure_def]
  · rintro ⟨a, b⟩
    simp only [Codec.pair, List.length_append, ha.size_eq, hb.size_eq]

theorem counted {count : Codec Nat} {bound : Nat} (hn : count.Lawful (· < bound)) (hc : c.Lawful valid) :
    (counted count c).Lawful fun xs => xs.length < bound ∧ ∀ x ∈ xs, valid x := by
  constructor
  · rintro xs ⟨hlen, hxs⟩ rest
    have hread := LittleEndian.readList_flatMap_append (fun x hx => hc.load_save_append x (hxs x hx)) rest
    simp only [Codec.counted, List.append_assoc, hn.load_save_append xs.length hlen,
      Option.bind_eq_bind, Option.bind_some]
    exact hread
  · intro xs
    have hsum : (xs.map c.size).sum = (xs.flatMap c.save).length := by
      rw [List.length_flatMap]
      exact congrArg List.sum (List.map_congr_left fun x _ => hc.size_eq x)
    simp only [Codec.counted, List.length_append, hn.size_eq, hsum]

theorem convert {valid' : β → Prop} {f : α → β} {g : β → α} (hc : c.Lawful valid)
    (hfg : ∀ b, valid' b → f (g b) = b) (hg : ∀ b, valid' b → valid (g b)) :
    (c.convert f g).Lawful valid' := by
  constructor
  · intro b hb rest
    simp only [Codec.convert, hc.load_save_append (g b) (hg b hb), Option.map_some, hfg b hb]
  · intro b
    exact hc.size_eq (g b)

end Lawful

end Codec
