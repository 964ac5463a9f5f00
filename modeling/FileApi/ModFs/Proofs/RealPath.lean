import FileApi.ModFs.Copy
import FileApi.ModFs.Proofs.FileSystem

/-!
# Normalised paths

What `GetRealPath` makes of a path from the root on: a slash and a name, again and again, with a
slash at the end if the path had one. No part is a dot or two.
-/

namespace FileApi.ModFs.Copy

open Compress

/-- The path of some names from the root on. -/
def render (names : List PathName) : PathName :=
  if names = [] then [slash] else names.flatMap (slash :: ·)

/-- A name that a path from the root can be made of. -/
def Part (name : PathName) : Prop := name ≠ [] ∧ slash ∉ name

variable {names : List PathName} {name path : PathName}

theorem Part.ne_slash (h : Part name) {b : UInt8} (hb : b ∈ name) : b ≠ slash :=
  fun heq => h.2 (heq ▸ hb)

theorem render_of_ne (h : names ≠ []) : render names = names.flatMap (slash :: ·) := if_neg h

/-! ## The functions of `filesystem::path` -/

theorem dropWhile_reverse_flatMap (h : ∀ n ∈ names, Part n) :
    (names.flatMap (slash :: ·)).reverse.dropWhile (· = slash) =
      (names.flatMap (slash :: ·)).reverse := by
  rcases List.eq_nil_or_concat names with rfl | ⟨front, last, rfl⟩
  · rfl
  · obtain ⟨hne, hslash⟩ := h last (by simp)
    obtain ⟨b, rest, hrev⟩ := List.exists_cons_of_ne_nil (List.reverse_ne_nil_iff.mpr hne)
    have hb : b ≠ slash := by
      refine Part.ne_slash ⟨hne, hslash⟩ (List.mem_reverse.mp ?_)
      rw [hrev]
      exact List.mem_cons_self
    rw [List.concat_eq_append, List.flatMap_append, List.reverse_append]
    have hlast : ([last].flatMap (slash :: ·)).reverse = b :: (rest ++ [slash]) := by
      simp [hrev]
    rw [hlast, List.cons_append, List.dropWhile_cons_of_neg (by simpa using hb)]

/-- Names that can be those of entries. -/
def AllPlain (names : List PathName) : Prop := ∀ n ∈ names, PlainName n

instance : DecidablePred AllPlain := fun _ => inferInstanceAs (Decidable (∀ n ∈ _, PlainName n))

theorem AllPlain.part (h : AllPlain names) : ∀ n ∈ names, Part n := fun n hn =>
  ⟨(h n hn).1, (h n hn).2.2.2⟩

/-- A path of names with a slash at its end. -/
def renderSlash (names : List PathName) : PathName := names.flatMap (slash :: ·) ++ [slash]

/-- One path is in front of another exactly if its names are. -/
theorem renderSlash_prefix {ns ms : List PathName} (hns : AllPlain ns) (hms : AllPlain ms) :
    renderSlash ns <+: renderSlash ms ↔ ns <+: ms := by
  constructor
  · intro h
    induction ns generalizing ms with
    | nil => exact List.nil_prefix
    | cons n ns ih =>
      cases ms with
      | nil =>
        have hlength := h.length_le
        have hn : n ≠ [] := (hns n List.mem_cons_self).1
        have hpos := List.length_pos_iff.mpr hn
        simp only [renderSlash, List.flatMap_cons, List.flatMap_nil, List.length_append,
          List.length_cons, List.length_nil] at hlength
        omega
      | cons m ms =>
        have hn := (hns n List.mem_cons_self).2.2.2
        have hm := (hms m List.mem_cons_self).2.2.2
        have hsplit : ∀ (k : PathName) (ks : List PathName),
            renderSlash (k :: ks) = slash :: (k ++ renderSlash ks) := by
          intro k ks
          simp [renderSlash]
        have hhead : ∀ ks : List PathName, ∃ rest, renderSlash ks = slash :: rest := by
          intro ks
          cases ks with
          | nil => exact ⟨_, rfl⟩
          | cons k ks => exact ⟨_, hsplit k ks⟩
        have htake : ∀ (k : PathName) (ks : List PathName), slash ∉ k →
            (k ++ renderSlash ks).takeWhile (· ≠ slash) = k := by
          intro k ks hk
          obtain ⟨rest, hrest⟩ := hhead ks
          have hall : ∀ b ∈ k, decide (b ≠ slash) = true := by
            intro b hb
            simpa using fun heq : b = slash => hk (heq ▸ hb)
          rw [hrest, List.takeWhile_append_of_pos hall]
          simp
        rw [hsplit, hsplit, List.cons_prefix_cons] at h
        obtain ⟨rest, hrest⟩ := h.2
        have hnm : n = m := by
          obtain ⟨tail, htail⟩ := hhead ns
          have hleft := htake m ms hm
          rw [← hrest, List.append_assoc, htail] at hleft
          have hall : ∀ b ∈ n, decide (b ≠ slash) = true := by
            intro b hb
            simpa using fun heq : b = slash => hn (heq ▸ hb)
          rw [List.takeWhile_append_of_pos hall] at hleft
          simpa using hleft
        subst hnm
        rw [List.append_assoc] at hrest
        have htail : renderSlash ns <+: renderSlash ms :=
          ⟨rest, List.append_cancel_left hrest⟩
        rw [List.cons_prefix_cons]
        exact ⟨rfl, ih (fun k hk => hns k (List.mem_cons_of_mem _ hk))
          (fun k hk => hms k (List.mem_cons_of_mem _ hk)) htail⟩
  · rintro ⟨rest, rfl⟩
    rw [renderSlash, renderSlash, List.flatMap_append]
    cases rest with
    | nil => simp
    | cons k rest =>
      refine ⟨k ++ rest.flatMap (slash :: ·) ++ [slash], ?_⟩
      simp

end FileApi.ModFs.Copy
