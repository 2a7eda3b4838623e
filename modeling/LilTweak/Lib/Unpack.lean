import Mathlib

/-!
# Unpacking

A tree of files maps the components of a path to what is there. Unpacking creates one file after the
other, with the directories above it, and never opens a file that exists. Entries none of which stands
at or above another one are all created, whatever their order.
-/

namespace LilTweak.Lib

/-- What stands at a path. -/
inductive Node (β : Type*) where
  | dir
  | file (content : β)

/-- What stands where. -/
abbrev FileTree (κ β : Type*) := List κ → Option (Node β)

namespace FileTree

variable {κ β : Type*} [DecidableEq κ] {t t' : FileTree κ β} {entries : List (List κ × β)} {path : List κ}

def isFile (t : FileTree κ β) (path : List κ) : Bool :=
  match t path with
  | some (.file _) => true
  | _ => false

/-- Create a file and the directories above it: nothing stands at its path, and no file above. -/
def create (t : FileTree κ β) (path : List κ) (content : β) : Option (FileTree κ β) :=
  if (t path).isSome = true ∨ path.inits.any t.isFile = true then none
  else some fun q => if q = path then some (.file content) else if q <+: path then some .dir else t q

/-- Create some files in turn. -/
def unpack (t : FileTree κ β) : List (List κ × β) → Option (FileTree κ β)
  | [] => some t
  | e :: rest => (t.create e.1 e.2).bind fun t' => unpack t' rest

/-- A file can be created here. -/
structure Vacant (t : FileTree κ β) (path : List κ) : Prop where
  here : t path = none
  above : ∀ q, q <+: path → t.isFile q = false

/-- Neither stands at or above the other. -/
def Apart (a b : List κ) : Prop := ¬a <+: b ∧ ¬b <+: a

/-- The tree with some files added. -/
structure Laid (t : FileTree κ β) (entries : List (List κ × β)) (t' : FileTree κ β) : Prop where
  files : ∀ e ∈ entries, t' e.1 = some (.file e.2)
  dirs : ∀ e ∈ entries, ∀ q, q <+: e.1 → q ≠ e.1 → t' q = some .dir
  outside : ∀ q, (∀ e ∈ entries, ¬q <+: e.1) → t' q = t q

theorem create_vacant (h : t.Vacant path) (content : β) :
    t.create path content =
      some fun q => if q = path then some (.file content) else if q <+: path then some .dir else t q := by
  unfold create
  rw [if_neg]
  intro hblocked
  rcases hblocked with hhere | habove
  · rw [h.here] at hhere
    cases hhere
  · obtain ⟨q, hq, hfile⟩ := List.any_eq_true.mp habove
    rw [h.above q ((List.mem_inits q path).mp hq)] at hfile
    cases hfile

/-- A vacant place apart from a new file stays vacant. -/
theorem Vacant.create {other : List κ} {content : β} (h : t.Vacant other) (hpath : t.Vacant path)
    (hapart : Apart path other) (hcreate : t.create path content = some t') : t'.Vacant other := by
  rw [create_vacant hpath] at hcreate
  obtain rfl := Option.some.inj hcreate
  constructor
  · show (if other = path then _ else if other <+: path then _ else _) = none
    have hne : other ≠ path := fun heq => hapart.1 (heq ▸ List.prefix_refl _)
    rw [if_neg hne, if_neg hapart.2, h.here]
  · intro q hq
    have hne : q ≠ path := fun heq => hapart.1 (heq ▸ hq)
    have hold := h.above q hq
    unfold isFile at hold ⊢
    simp only [if_neg hne]
    by_cases hbegins : q <+: path
    · rw [if_pos hbegins]
    · rw [if_neg hbegins]
      exact hold

/-- Entries apart from each other are unpacked into places that are vacant. -/
theorem unpack_laid (hapart : entries.Pairwise fun e f => Apart e.1 f.1) (hvacant : ∀ e ∈ entries, t.Vacant e.1) :
    ∃ t', t.unpack entries = some t' ∧ t.Laid entries t' := by
  induction entries generalizing t with
  | nil => exact ⟨t, rfl, by simp, by simp, fun _ _ => rfl⟩
  | cons e rest ih =>
    obtain ⟨hfirst, hrest⟩ := List.pairwise_cons.mp hapart
    have hcreate := create_vacant (hvacant e List.mem_cons_self) e.2
    have hvacant' : ∀ f ∈ rest, FileTree.Vacant _ f.1 := fun f hf =>
      (hvacant f (List.mem_cons_of_mem _ hf)).create (hvacant e List.mem_cons_self) (hfirst f hf) hcreate
    obtain ⟨t', hunpack, hlaid⟩ := ih hrest hvacant'
    refine ⟨t', ?_, ?_, ?_, ?_⟩
    · rw [unpack, hcreate]
      exact hunpack
    · intro f hf
      rcases List.mem_cons.mp hf with rfl | hf
      · -- the later files leave this one alone
        rw [hlaid.outside f.1 fun g hg => (hfirst g hg).1, if_pos rfl]
      · exact hlaid.files f hf
    · intro f hf q hq hne
      rcases List.mem_cons.mp hf with rfl | hf
      · by_cases hlater : ∃ g ∈ rest, q <+: g.1
        · obtain ⟨g, hg, hqg⟩ := hlater
          exact hlaid.dirs g hg q hqg fun heq => (hfirst g hg).2 (heq ▸ hq)
        · rw [hlaid.outside q fun g hg hqg => hlater ⟨g, hg, hqg⟩, if_neg hne, if_pos hq]
      · exact hlaid.dirs f hf q hq hne
    · intro q hq
      have hnot := hq e List.mem_cons_self
      have hne : q ≠ e.1 := fun heq => hnot (heq ▸ List.prefix_refl _)
      rw [hlaid.outside q fun g hg => hq g (List.mem_cons_of_mem _ hg), if_neg hne, if_neg hnot]

end FileTree

end LilTweak.Lib
