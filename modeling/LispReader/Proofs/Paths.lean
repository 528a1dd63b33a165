import LispReader.Source.Directory

namespace LispReader

namespace Directory

variable {directory : Directory} {place outer key : List String} {contents : List UInt8}
  {entry : Entry} {entries : List (List String × Entry)}

def kept (parts : List String) : List String :=
  parts.filter fun part => part ≠ "" ∧ part ≠ "."

theorem entry?_cons_self (hkey : key ≠ []) :
    entry? ⟨(key, entry) :: entries⟩ key = some entry := by
  simp [hkey, entry?]

theorem entry?_cons_of_ne (hne : place ≠ key) :
    entry? ⟨(key, entry) :: entries⟩ place = entry? ⟨entries⟩ place := by
  have hkey : (place == key) = false := beq_false_of_ne hne
  simp [List.lookup_cons, hkey, entry?]

theorem entry?_addFolder (h : place <:+ outer) :
    entry? (directory.addFolder outer) place = some .folder := by
  induction outer with
  | nil =>
      obtain rfl := List.suffix_nil.mp h
      rfl
  | cons name outer ih =>
      rcases List.suffix_cons_iff.mp h with rfl | hshorter
      · exact entry?_cons_self (by simp)
      · by_cases hsame : place = name :: outer
        · rw [hsame]
          exact entry?_cons_self (by simp)
        · exact (entry?_cons_of_ne hsame).trans (ih hshorter)

theorem isFolder_addFile {name : String} (h : place <:+ outer) :
    (directory.addFile contents (name :: outer)).isFolder place = true := by
  have hne : place ≠ name :: outer := fun hsame => by
    have hlength := h.length_le
    rw [hsame, List.length_cons] at hlength
    omega
  exact decide_eq_true ((entry?_cons_of_ne hne).trans (entry?_addFolder h))

theorem walk?_none {part : String} {rest : List String} (hplace : directory.isFolder place = true)
    (hpart : part = "" ∨ part = ".") :
    directory.walk? place (part :: rest) = directory.walk? place rest := by
  simp [walk?, hplace, hpart]

theorem walk?_name {part : String} {rest : List String} (hplace : directory.isFolder place = true)
    (hpart : ¬(part = "" ∨ part = ".")) (hup : part ≠ "..") :
    directory.walk? place (part :: rest) = directory.walk? (part :: place) rest := by
  simp [walk?, hplace, hpart, hup]

theorem walk?_append_name {name : String} {parts : List String}
    (hname : name ≠ "" ∧ name ≠ "." ∧ name ≠ "..") (hparts : ".." ∉ parts)
    (hfolders : ∀ above, above <:+ (kept parts).reverse ++ place →
      directory.isFolder above = true) :
    directory.walk? place (parts ++ [name]) =
      some (name :: ((kept parts).reverse ++ place)) := by
  induction parts generalizing place with
  | nil =>
      have hplace := hfolders place (List.suffix_refl _)
      exact walk?_name hplace (by simp [hname]) hname.2.2
  | cons part parts ih =>
      rw [List.mem_cons, not_or] at hparts
      have hplace := hfolders place (List.suffix_append _ _)
      by_cases hpart : part = "" ∨ part = "."
      · have hkept : kept (part :: parts) = kept parts := by simp [kept, ← not_or, hpart]
        rw [hkept] at hfolders ⊢
        rw [List.cons_append, walk?_none hplace hpart]
        exact ih hparts.2 hfolders
      · have hkept : (kept (part :: parts)).reverse ++ place =
            (kept parts).reverse ++ (part :: place) := by simp [kept, ← not_or, hpart]
        rw [hkept] at hfolders ⊢
        rw [List.cons_append, walk?_name hplace hpart (Ne.symm hparts.1)]
        exact ih hparts.2 hfolders

/-- A file that is stored under the names of a path is found at the path, whatever else the folder
holds. -/
theorem contents?_addFile (directory : Directory) (contents : List UInt8) {path name : String}
    {parts : List String} (hpath : Path.isPath path) (hrelative : path.toList.head? ≠ some '/')
    (hsegments : Path.segments path = parts ++ [name]) (hparts : ".." ∉ parts)
    (hname : name ≠ "" ∧ name ≠ "." ∧ name ≠ "..") :
    (directory.addFile contents (Path.names path)).contents? path = some contents := by
  have hnames : Path.names path = name :: (kept parts).reverse := by
    simp [Path.names, hsegments, kept, hname]
  have hfolders (above : List String) (habove : above <:+ (kept parts).reverse ++ []) :
      (directory.addFile contents (name :: (kept parts).reverse)).isFolder above = true := by
    rw [List.append_nil] at habove
    exact isFolder_addFile habove
  have hwalk := walk?_append_name hname hparts hfolders
  have hfile : entry? (directory.addFile contents (name :: (kept parts).reverse))
      (name :: (kept parts).reverse) = some (.file contents) := entry?_cons_self (by simp)
  rw [List.append_nil] at hwalk
  rw [contents?, if_pos ⟨hpath, hrelative⟩, hsegments, hnames, hwalk, Option.bind_some, hfile]

end Directory

end LispReader
