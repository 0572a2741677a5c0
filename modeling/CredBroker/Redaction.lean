import CredBroker.Logging
import CredBroker.Python.Substitution

/-!
# What `scrub` leaves

No secret survives `scrub` that has none of the marker's brackets and is no part of it
(`scrub_leaves_no_secret`). Where secrets overlap, the order of the replacements tells,
and a part of a secret may stay (`scrub_law_iff`).
-/

namespace CredBroker

open Python Interaction Substitution

/-! ## Replacement as substitution -/

theorem replace_eq (old new text : Str) :
    text.replace old new = substAll id [old] new text := by
  suffices key : ∀ skip, Str.replaceFrom old new skip text = substFrom id [old] new skip text from
    key 0
  induction text with
  | nil => simp [Str.replaceFrom, substFrom]
  | cons c text ih =>
    intro skip
    cases skip with
    | succ skip => exact ih skip
    | zero =>
      rw [Str.replaceFrom, substFrom, List.map_id]
      cases found : old.isPrefixOf (c :: text) with
      | true => simp [found, ih]
      | false => simp [found, ih]

theorem contains_iff {text old : Str} : text.contains old = true ↔ old <:+: text := by
  unfold Str.contains
  rw [List.any_eq_true]
  constructor
  · rintro ⟨tail, member, begins⟩
    exact (List.isPrefixOf_iff_prefix.mp begins).isInfix.trans
      ((List.mem_tails _ _).mp member).isInfix
  · rintro ⟨head, tail, rfl⟩
    refine ⟨old ++ tail, (List.mem_tails _ _).mpr ⟨head, by simp⟩, ?_⟩
    exact List.isPrefixOf_iff_prefix.mpr (List.prefix_append _ _)

/-- `scrub` substitutes one secret after the other. -/
theorem scrubWith_eq {secrets : List Str} (nonempty : ∀ s ∈ secrets, s ≠ []) (text : Str) :
    scrubWith text secrets =
      secrets.foldl (fun text secret => substAll id [secret] redacted text) text := by
  induction secrets generalizing text with
  | nil => rfl
  | cons s secrets ih =>
    obtain ⟨first, nonempty⟩ := List.forall_mem_cons.mp nonempty
    have step : (if text.contains s then text.replace s redacted else text) =
        substAll id [s] redacted text := by
      split
      · exact replace_eq s redacted text
      · rename_i absent
        refine (substAll_free (by simpa using first) ?_).symm
        simpa [← contains_iff] using absent
    show scrubWith (if text.contains s then text.replace s redacted else text) secrets = _
    rw [step, ih nonempty]
    rfl

/-! ## No secret survives -/

/-- Secrets without the marker's brackets that are no part of the marker. -/
def Maskable (secrets : List Str) : Prop :=
  ∀ s ∈ secrets, '[' ∉ s ∧ ']' ∉ s ∧ ¬ s <:+: redacted

theorem Maskable.nonempty {secrets : List Str} (maskable : Maskable secrets) :
    ∀ s ∈ secrets, s ≠ [] := by
  rintro s member rfl
  exact (maskable [] member).2.2 List.nil_infix

theorem redacted_eq : redacted.map id = '[' :: ("REDACTED" ++ [']']) := rfl

/-- A word that a substitution leaves was there before, and was not substituted. -/
theorem maskable_back {s secret text : Str} (nonempty : secret ≠ []) (maskable : Maskable [s])
    (occurs : s <:+: substAll id [secret] redacted text) : s ≠ secret ∧ s <:+: text := by
  obtain ⟨opens, closes, other⟩ := maskable s List.mem_cons_self
  have occurs : s <:+: (substAll id [secret] redacted text).map id := by rwa [List.map_id]
  rcases occurs_back (by simpa using nonempty) redacted_eq opens closes occurs with
    inside | rfl | ⟨unlike, there⟩
  · refine (other (inside.trans ⟨['['], [']'], rfl⟩)).elim
  · exact (other List.nil_infix).elim
  · rw [List.map_id] at there
    exact ⟨by simpa using unlike, there⟩

/-- What does not occur does not come in. -/
theorem scrubWith_absent {s : Str} (maskable : Maskable [s]) {secrets : List Str}
    (nonempty : ∀ s ∈ secrets, s ≠ []) {text : Str} (absent : ¬ s <:+: text) :
    ¬ s <:+: scrubWith text secrets := by
  rw [scrubWith_eq nonempty]
  induction secrets generalizing text with
  | nil => exact absent
  | cons secret secrets ih =>
    obtain ⟨first, nonempty⟩ := List.forall_mem_cons.mp nonempty
    exact ih nonempty fun occurs => absent (maskable_back first maskable occurs).2

/-- Whatever the order, none of the secrets is left. -/
theorem scrubWith_clean {secrets : List Str} (maskable : Maskable secrets) (text : Str) :
    ∀ s ∈ secrets, ¬ s <:+: scrubWith text secrets := by
  induction secrets generalizing text with
  | nil => nofun
  | cons secret secrets ih =>
    have first : Maskable [secret] := by simpa [Maskable] using maskable secret List.mem_cons_self
    have others : Maskable secrets := fun s member => maskable s (List.mem_cons_of_mem _ member)
    have nonempty := maskable.nonempty secret List.mem_cons_self
    have step : scrubWith text (secret :: secrets) =
        scrubWith (substAll id [secret] redacted text) secrets := by
      rw [scrubWith_eq maskable.nonempty, scrubWith_eq others.nonempty]
      rfl
    rw [step]
    refine List.forall_mem_cons.mpr ⟨scrubWith_absent first others.nonempty ?_, ih others _⟩
    exact fun occurs => (maskable_back nonempty first occurs).1 rfl

/-- Where no secret occurs, nothing is done. -/
theorem scrubWith_self {secrets : List Str} (nonempty : ∀ s ∈ secrets, s ≠ []) {text : Str}
    (absent : ∀ s ∈ secrets, ¬ s <:+: text) : scrubWith text secrets = text := by
  rw [scrubWith_eq nonempty]
  induction secrets with
  | nil => rfl
  | cons secret secrets ih =>
    obtain ⟨first, nonempty⟩ := List.forall_mem_cons.mp nonempty
    obtain ⟨gone, absent⟩ := List.forall_mem_cons.mp absent
    rw [List.foldl_cons, substAll_free (by simpa using first) (by simpa using gone)]
    exact ih nonempty absent

theorem scrubWith_ne_nil {secrets : List Str} (nonempty : ∀ s ∈ secrets, s ≠ []) {text : Str}
    (some_ : text ≠ []) : scrubWith text secrets ≠ [] := by
  rw [scrubWith_eq nonempty]
  induction secrets generalizing text with
  | nil => exact some_
  | cons secret secrets ih =>
    obtain ⟨first, nonempty⟩ := List.forall_mem_cons.mp nonempty
    exact ih nonempty (substAll_ne_nil (by simpa using first) (by decide) some_)

/-- A secret of eight characters is part of the marker only as its word. -/
theorem maskable_of_long {secrets : List Str}
    (secret : ∀ s ∈ secrets, 8 ≤ s.length ∧ '[' ∉ s ∧ ']' ∉ s ∧ s ≠ "REDACTED") :
    Maskable secrets := by
  intro s member
  obtain ⟨long, opens, closes, other⟩ := secret s member
  refine ⟨opens, closes, fun inside => ?_⟩
  rcases infix_or_infix opens (show s <:+: [] ++ '[' :: ("REDACTED" ++ [']']) from inside) with
    empty | inside
  · rw [List.infix_nil.mp empty] at long
    cases long
  · rcases infix_or_infix closes (show s <:+: "REDACTED" ++ ']' :: [] from inside) with
      whole | empty
    · exact other (whole.sublist.eq_of_length_le long)
    · rw [List.infix_nil.mp empty] at long
      cases long

/-- `scrub(text)` may return this, where these secrets are registered. -/
def ScrubsTo (registry : List Str) (text out : Str) : Prop :=
  ∃ order : List Str, order.Perm registry ∧ out = scrubWith text order

/-- No registered secret occurs in what `scrub` returns, whatever the order in which the
registry is listed; so a second `scrub` changes nothing. -/
theorem scrub_leaves_no_secret {registry : List Str}
    (secret : ∀ s ∈ registry, 8 ≤ s.length ∧ '[' ∉ s ∧ ']' ∉ s ∧ s ≠ "REDACTED") (text out : Str)
    (scrubbed : ScrubsTo registry text out) :
    (∀ s ∈ registry, ¬ s <:+: out) ∧ ∀ again, ScrubsTo registry out again → again = out := by
  have maskable := maskable_of_long secret
  obtain ⟨order, perm, rfl⟩ := scrubbed
  have listed : Maskable order := fun s member => maskable s (perm.mem_iff.mp member)
  have clean : ∀ s ∈ registry, ¬ s <:+: scrubWith text order := fun s member =>
    scrubWith_clean listed text s (perm.mem_iff.mpr member)
  refine ⟨clean, ?_⟩
  rintro again ⟨order', perm', rfl⟩
  refine scrubWith_self (fun s member => maskable.nonempty s (perm'.mem_iff.mp member)) ?_
  exact fun s member => clean s (perm'.mem_iff.mp member)

/-- An error message with both tokens of an account. -/
theorem scrub_leaves_no_secret_demo : ∃ (registry : List Str) (text out : Str),
    ScrubsTo registry text out ∧ out = "token [REDACTED], refresh [REDACTED]" ∧
      ∀ s ∈ registry, ¬ s <:+: out := by
  have scrubbed : ScrubsTo ["ya29.access", "1//refresh"] "token ya29.access, refresh 1//refresh"
      "token [REDACTED], refresh [REDACTED]" :=
    ⟨["1//refresh", "ya29.access"], List.isPerm_iff.mp (by decide), by decide⟩
  exact ⟨_, _, _, scrubbed, rfl, (scrub_leaves_no_secret (by decide) _ _ scrubbed).1⟩

/-! ## Where the output comes from -/

/-- The characters of a text with their positions. -/
def placed (text : Str) : List (Char × Option Nat) := text.zipIdx.map fun (c, i) => (c, some i)

/-- The marker, which comes from nowhere. -/
def marker : List (Char × Option Nat) := redacted.map fun c => (c, none)

/-- `scrubWith`, on characters that carry their positions. -/
def scrubPlaced (text : List (Char × Option Nat)) (secrets : List Str) :
    List (Char × Option Nat) :=
  secrets.foldl (fun text secret => substAll Prod.fst [secret] marker text) text

theorem placed_text (text : Str) : (placed text).map Prod.fst = text := by
  simp [placed, Function.comp_def]

theorem marker_text : marker.map Prod.fst = redacted := by
  simp [marker, Function.comp_def]

theorem placed_at (text : Str) (i : Nat) :
    (placed text)[i]? = text[i]?.map fun c => (c, some i) := by
  simp [placed, List.getElem?_zipIdx, Function.comp_def]

/-- The positions make no difference to the text. -/
theorem scrubPlaced_text {secrets : List Str} (nonempty : ∀ s ∈ secrets, s ≠ [])
    (text : List (Char × Option Nat)) :
    (scrubPlaced text secrets).map Prod.fst = scrubWith (text.map Prod.fst) secrets := by
  rw [scrubWith_eq nonempty]
  unfold scrubPlaced
  induction secrets generalizing text with
  | nil => rfl
  | cons s secrets ih =>
    rw [List.foldl_cons, List.foldl_cons, ih (List.forall_mem_cons.mp nonempty).2]
    congr 1
    exact (map_substAll id Prod.fst fun _ => rfl).trans (by rw [marker_text])

/-- The character at this position is copied to the output. -/
def Copied (text : Str) (order : List Str) (i : Nat) : Prop :=
  ∃ c, (c, some i) ∈ scrubPlaced (placed text) order

/-- The position lies inside an occurrence of a secret. -/
def Covered (registry : List Str) (text : Str) (i : Nat) : Prop :=
  ∃ s ∈ registry, ∃ j, At s text j ∧ j ≤ i ∧ i < j + s.length

/-- The order of the registry makes no difference, and no part of a secret stays. -/
structure ScrubLaw (registry : List Str) (text : Str) : Prop where
  order : ∀ l l' : List Str, l.Perm registry → l'.Perm registry →
    scrubWith text l = scrubWith text l'
  fragments : ∀ l : List Str, l.Perm registry → ∀ i, Covered registry text i → ¬ Copied text l i

/-- A maskable secret does not reach into the marker. -/
theorem inert_of_maskable {secrets : List Str} (maskable : Maskable secrets) :
    Inert secrets redacted := inert_of_bracketed redacted_eq maskable

section Law

variable {registry : List Str} (nonempty : ∀ s ∈ registry, s ≠ [])
  (inert : Inert registry redacted)

include nonempty inert

/-- Secrets that do not overlap in the text are scrubbed without a trace, in any order. -/
theorem scrubLaw_of_apart {text : Str} (apart : Apart registry text) : ScrubLaw registry text := by
  have all : ∀ l : List Str, l.Perm registry → scrubPlaced (placed text) l =
      substAll Prod.fst registry marker (placed text) := by
    intro l perm
    have nonempty' : ∀ s ∈ l, s ≠ [] := fun s member => nonempty s (perm.mem_iff.mp member)
    have apart' : Apart registry ((placed text).map Prod.fst) := by rwa [placed_text]
    have inert' : Inert l (marker.map Prod.fst) := by
      rw [marker_text]
      exact inert.mono fun s => perm.mem_iff.mp
    rw [scrubPlaced, foldl_substAll nonempty' (by decide) inert' (apart'.mono fun s =>
      perm.mem_iff.mp)]
    exact substAll_congr nonempty apart' fun s => perm.mem_iff
  have texts : ∀ l : List Str, l.Perm registry → scrubWith text l =
      (substAll Prod.fst registry marker (placed text)).map Prod.fst := by
    intro l perm
    rw [← all l perm, scrubPlaced_text fun s member => nonempty s (perm.mem_iff.mp member),
      placed_text]
  refine ⟨fun l l' perm perm' => (texts l perm).trans (texts l' perm').symm, ?_⟩
  rintro l perm i ⟨s, member, j, occurs, le, lt⟩ ⟨c, copied⟩
  rw [all l perm] at copied
  rcases mem_substAll nonempty (by rwa [placed_text]) copied with fresh | ⟨i', at_, clear⟩
  · simp [marker] at fresh
  · rw [placed_at, Option.map_eq_some_iff] at at_
    obtain ⟨d, -, same⟩ := at_
    obtain rfl : i' = i := by simpa using (Prod.mk.inj same).2
    rw [placed_text] at clear
    have ends := clear s member j occurs le
    omega

/-- A secret inside of another one shows in which order they were replaced. -/
theorem eq_of_contained {s t : Str} (member : s ∈ registry) (member' : t ∈ registry)
    (inside : t <:+: s) (law : ScrubLaw registry s) : t = s := by
  by_contra other
  have sub : ∀ {u : Str} (r : Str), r ∈ registry.erase u → r ∈ registry := fun r =>
    List.mem_of_mem_erase
  have nonempty' : ∀ u, ∀ r ∈ registry.erase u, r ≠ [] := fun u r is => nonempty r (sub r is)
  have inert' : ∀ u : Str, Inert (registry.erase u) (redacted.map id) := fun u => by
    rw [List.map_id]
    exact inert.mono sub
  have listed : ∀ u ∈ registry, (u :: registry.erase u).Perm registry := fun u is =>
    (List.perm_cons_erase is).symm
  have first : ∀ u ∈ registry, scrubWith s (u :: registry.erase u) = (registry.erase u).foldl
      (fun text secret => substAll id [secret] redacted text) (substAll id [u] redacted s) := by
    intro u is
    exact scrubWith_eq (fun r there => nonempty r ((listed u is).mem_iff.mp there)) s
  -- with the larger one first, the marker is all there is
  have whole : substAll id [s] redacted s = redacted ++ [] := by
    rw [substAll_hit (by simpa using nonempty s member) List.mem_cons_self (by simp) (by simp),
      List.drop_length, substAll_nil]
  -- with the smaller one first, something else is left
  have occurs : t <:+: s.map id := by rwa [List.map_id]
  obtain ⟨head, tail, split, begins, replaced⟩ : ∃ head tail, s = head ++ tail ∧
      t <+: tail.map id ∧ substAll id [t] redacted s =
        head ++ (redacted ++ substAll id [t] redacted (tail.drop t.length)) :=
    substAll_first (nonempty t member') occurs
  obtain ⟨head', tail', eq, heads, tails⟩ := foldl_around (by decide) (nonempty' t) (inert' t) head
    (substAll id [t] redacted (tail.drop t.length))
  have same := law.order _ _ (listed s member) (listed t member')
  rw [first s member, first t member', whole, foldl_new (by decide) (nonempty' s) (inert' s) []
    (fun r is => by simpa using nonempty r (sub r is)), replaced, eq] at same
  have lengths := congrArg List.length same
  simp only [List.length_append, List.length_nil] at lengths
  have noHead : head = [] := by
    by_contra some_
    have := List.length_pos_of_ne_nil (heads some_)
    omega
  have noTail : tail.drop t.length = [] := by
    by_contra some_
    have := List.length_pos_of_ne_nil (tails (substAll_ne_nil (by simpa using nonempty t member')
      (by decide) some_))
    omega
  rw [noHead, List.nil_append] at split
  subst split
  rw [List.map_id] at begins
  exact other (begins.eq_of_length_le (by simpa using noTail))

/-- A secret that begins inside of another one and goes on after it leaves its end. -/
theorem not_scrubLaw_of_overlap {v w y : Str} {k : Nat} (left : v ∈ registry) (right : w ∈ registry)
    (separate : ∀ s ∈ registry, ∀ t ∈ registry, t <:+: s → t = s)
    (inside : k < v.length) (goes : y ≠ []) (whole : v.drop k ++ y = w) :
    ¬ ScrubLaw registry (v ++ y) := by
  intro law
  have longer := List.length_pos_of_ne_nil goes
  have length : v.length - k + y.length = w.length := by
    rw [← whole, List.length_append, List.length_drop]
  have free : ∀ s ∈ registry, ¬ s <:+: y := by
    intro s member occurs
    have same := separate w right s member (occurs.trans (whole ▸ (List.suffix_append _ _).isInfix))
    have shorter := occurs.length_le
    rw [same] at shorter
    omega
  have perm : (v :: registry.erase v).Perm registry := (List.perm_cons_erase left).symm
  have covered : Covered registry (v ++ y) v.length := by
    refine ⟨w, right, k, ?_, by omega, by omega⟩
    rw [At, List.drop_append_of_le_length (by omega), whole]
  have letters : ((placed (v ++ y)).drop v.length).map Prod.fst = y := by
    rw [List.map_drop, placed_text, List.drop_left]
  have nonempty' : ∀ s ∈ registry.erase v, s ≠ [] := fun s member =>
    nonempty s (List.mem_of_mem_erase member)
  have inert' : Inert (registry.erase v) (marker.map Prod.fst) := by
    rw [marker_text]
    exact inert.mono fun s => List.mem_of_mem_erase
  have single : ∀ s ∈ [v], s ≠ [] := by simpa using nonempty v left
  have first : substAll Prod.fst [v] marker (placed (v ++ y)) =
      marker ++ (placed (v ++ y)).drop v.length := by
    rw [substAll_hit single List.mem_cons_self (by rw [placed_text]; exact List.prefix_append _ _)
      (by simp), substAll_free single (by rw [letters]; simpa using free v left)]
  have result : scrubPlaced (placed (v ++ y)) (v :: registry.erase v) =
      marker ++ (placed (v ++ y)).drop v.length := by
    rw [scrubPlaced, List.foldl_cons, first]
    refine foldl_new (by decide) nonempty' inert' _ fun s member => ?_
    rw [letters]
    exact free s (List.mem_of_mem_erase member)
  refine law.fragments _ perm v.length covered ?_
  obtain ⟨c, more, rfl⟩ := List.exists_cons_of_ne_nil goes
  refine ⟨c, ?_⟩
  rw [result]
  refine List.mem_append_right _ (List.mem_iff_getElem?.mpr ⟨0, ?_⟩)
  rw [List.getElem?_drop, placed_at]
  simp

/-- Where the law holds of every text, no two secrets overlap in one. -/
theorem apart_of_scrubLaw (law : ∀ text, ScrubLaw registry text) (text : Str) :
    Apart registry text := by
  have separate : ∀ s ∈ registry, ∀ t ∈ registry, t <:+: s → t = s :=
    fun s member t member' inside => eq_of_contained nonempty inert member member' inside (law s)
  have ordered : ∀ v ∈ registry, ∀ w ∈ registry, ∀ i j, At v text i → At w text j → i ≤ j →
      j < i + v.length → v = w ∧ i = j := by
    intro v left w right i j occurs occurs' le lt
    have rest := occurs.rest (j - i)
    rw [Nat.add_sub_cancel' le] at rest
    by_cases inside : j + w.length ≤ i + v.length
    · -- the second one ends in the first
      have begins := occurs'.begins rest (by rw [List.length_drop]; omega)
      have same := separate v left w right (begins.isInfix.trans (List.drop_suffix _ _).isInfix)
      rw [same] at inside
      exact ⟨same.symm, by omega⟩
    · obtain ⟨y, whole⟩ := rest.begins occurs' (by rw [List.length_drop]; omega)
      have length : v.length - (j - i) + y.length = w.length := by
        rw [← whole, List.length_append, List.length_drop]
      have goes : y ≠ [] := by
        rintro rfl
        rw [List.length_nil] at length
        omega
      exact (not_scrubLaw_of_overlap nonempty inert left right separate (by omega) goes whole
        (law _)).elim
  intro v left w right i j occurs occurs' lt lt'
  rcases Nat.le_total i j with le | le
  · exact ordered v left w right i j occurs occurs' le lt'
  · obtain ⟨rfl, rfl⟩ := ordered w right v left j i occurs' occurs le lt
    exact ⟨rfl, rfl⟩

end Law

/-- Secrets that overlap neither in the text nor with the marker are scrubbed without a
trace and in any order. A registry for which this holds of every text has, where its
secrets keep clear of the marker, no two that overlap in any. -/
theorem scrub_law_iff {registry : List Str} (nonempty : ∀ s ∈ registry, s ≠ []) :
    (∀ text, Inert registry redacted → Apart registry text → ScrubLaw registry text) ∧
      (Inert registry redacted →
        ((∀ text, ScrubLaw registry text) ↔ ∀ text, Apart registry text)) :=
  ⟨fun _ inert => scrubLaw_of_apart nonempty inert, fun inert =>
    ⟨apart_of_scrubLaw nonempty inert, fun apart text =>
      scrubLaw_of_apart nonempty inert (apart text)⟩⟩

/-- Two tokens side by side. -/
theorem scrub_law_iff_demo :
    ScrubLaw ["ya29.abc", "1//token"] "Bearer ya29.abc1//token" := by
  have table : ∀ i ≤ 15, ∀ v ∈ (["ya29.abc", "1//token"] : List Str),
      v <+: ("Bearer ya29.abc1//token" : Str).drop i →
        v = "ya29.abc" ∧ i = 7 ∨ v = "1//token" ∧ i = 15 := by decide
  have only : ∀ i, ∀ v ∈ (["ya29.abc", "1//token"] : List Str),
      At v ("Bearer ya29.abc1//token" : Str) i →
        v = "ya29.abc" ∧ i = 7 ∨ v = "1//token" ∧ i = 15 := by
    intro i v member occurs
    have length : v.length = 8 := by
      rcases List.mem_pair.mp member with rfl | rfl <;> rfl
    have bound : i + v.length ≤ 23 := occurs.length_le (by rintro rfl; cases length)
    exact table i (by omega) v member occurs
  refine (scrub_law_iff (by decide)).1 _ (inert_of_maskable (by unfold Maskable; decide)) ?_
  intro v left w right i j occurs occurs' lt lt'
  rcases only i v left occurs with ⟨rfl, rfl⟩ | ⟨rfl, rfl⟩
  · rcases only j w right occurs' with ⟨rfl, rfl⟩ | ⟨rfl, rfl⟩
    · exact ⟨rfl, rfl⟩
    · exact absurd lt' (by decide)
  · rcases only j w right occurs' with ⟨rfl, rfl⟩ | ⟨rfl, rfl⟩
    · exact absurd lt (by decide)
    · exact ⟨rfl, rfl⟩

/-- A token and its beginning: one order leaves the end of the token. -/
theorem scrub_law_broken :
    scrubWith "ya29.abcdef" ["ya29.abc", "ya29.abcdef"] = "[REDACTED]def" ∧
      scrubWith "ya29.abcdef" ["ya29.abcdef", "ya29.abc"] = "[REDACTED]" ∧
      Covered ["ya29.abc", "ya29.abcdef"] "ya29.abcdef" 8 ∧
      Copied "ya29.abcdef" ["ya29.abc", "ya29.abcdef"] 8 ∧
      ¬ ScrubLaw ["ya29.abc", "ya29.abcdef"] "ya29.abcdef" := by
  have short : scrubWith "ya29.abcdef" ["ya29.abc", "ya29.abcdef"] = "[REDACTED]def" := by decide
  have long : scrubWith "ya29.abcdef" ["ya29.abcdef", "ya29.abc"] = "[REDACTED]" := by decide
  refine ⟨short, long, ⟨"ya29.abcdef", by decide, 0, List.prefix_rfl, by decide, by decide⟩,
    ⟨'d', by decide⟩, fun law => ?_⟩
  have same := law.order _ _ (List.Perm.refl _) (List.Perm.swap ..)
  rw [long, short] at same
  cases congrArg List.length same

end CredBroker
