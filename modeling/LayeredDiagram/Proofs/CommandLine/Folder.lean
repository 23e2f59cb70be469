import LayeredDiagram.CommandLine.Folder
import LayeredDiagram.Proofs.Sequence
import LayeredDiagram.Proofs.Text.Half
import Mathlib.Data.List.Basic

namespace LayeredDiagram.CommandLine.Folder

variable {d d' : Folder} {p q : Place} {path name text : String} {names : List String}

@[simp]
theorem isFolder_put : (d.put q text).isFolder p = d.isFolder p := by
  unfold put
  dsimp only
  split_ifs <;> rfl

theorem put_sink : d.put .sink text = d :=
  rfl

-- Wherever there is a file, this one stands in for it.
theorem find?_replaced {files : List (Place × String)} (h : files.any (·.1 == p)) :
    (files.map fun e => if e.1 == p then (p, text) else e).find? (·.1 == p) = some (p, text) := by
  have hsame : ((·.1 == p) ∘ fun e : Place × String => if e.1 == p then (p, text) else e) =
      (·.1 == p) := by
    funext e
    by_cases he : e.1 = p <;> simp [he]
  obtain ⟨e, he⟩ := Option.isSome_iff_exists.mp (List.find?_isSome.mpr (List.any_eq_true.mp h))
  have hp : (e.1 == p) = true := List.find?_some (p := fun e : Place × String => e.1 == p) he
  rw [List.find?_map, hsame, he, Option.map_some, if_pos hp]

theorem content?_put (h : p ≠ .sink) : (d.put p text).content? p = some (Text.mended text) := by
  have hp : (p == .sink) = false := beq_false_of_ne h
  unfold put content?
  dsimp only
  rw [hp]
  by_cases hany : d.files.any (·.1 == p)
  case pos =>
    rw [if_neg Bool.false_ne_true, if_neg Bool.false_ne_true, if_pos hany]
    exact congrArg _ (find?_replaced hany)
  case neg =>
    have hnone : d.files.find? (·.1 == p) = none :=
      List.find?_eq_none.mpr fun e he hep => hany (List.any_eq_true.mpr ⟨e, he, hep⟩)
    simp [hany, List.find?_append, hnone]

theorem find?_replaced_of_ne {files : List (Place × String)} (h : q ≠ p) :
    (files.map fun e => if e.1 == p then (p, text) else e).find? (·.1 == q) =
      files.find? (·.1 == q) := by
  induction files with
  | nil => rfl
  | cons e files hi =>
    rw [List.map_cons]
    by_cases he : e.1 = p
    case pos =>
      rw [if_pos (beq_iff_eq.mpr he), List.find?_cons_of_neg (by simpa using Ne.symm h),
        List.find?_cons_of_neg (by simpa [he] using Ne.symm h), hi]
    case neg => rw [if_neg (by simpa using he), List.find?_cons, List.find?_cons, hi]

theorem find?_put_of_ne (h : q ≠ p) :
    (d.put p text).files.find? (·.1 == q) = d.files.find? (·.1 == q) := by
  unfold put
  dsimp only
  split
  case isTrue => rfl
  case isFalse =>
    split
    case isTrue  => exact find?_replaced_of_ne h
    case isFalse => simp [List.find?_append, Ne.symm h]

theorem content?_put_of_ne (h : q ≠ p) : (d.put p text).content? q = d.content? q := by
  rw [content?, content?, find?_put_of_ne h]

theorem step_eq_ok_iff : d.step path p name = .ok q ↔
    d.isFolder p ∧ (Text.toCharacters name).utf8ByteSize ≤ nameLimit ∧ p.walk name = q := by
  unfold step
  split_ifs with hf hn hc
  case pos        => simp [Nat.not_le.mpr hn]
  case neg        => simp [hf, Nat.not_lt.mp hn]
  all_goals simp [hf]

theorem locate_put : (d.put q text).locate path names = .ok p ↔ d.locate path names = .ok p := by
  unfold locate
  split_ifs
  case neg =>
    exact foldlM_eq_ok_congr fun p name q => by rw [step_eq_ok_iff, step_eq_ok_iff, isFolder_put]
  all_goals rfl

theorem ne_empty_of_locate (h : d.locate path names = .ok p) : path ≠ "" := by
  rintro rfl
  simp [locate] at h

theorem ne_empty_of_read (h : d.read path = .ok text) : path ≠ "" :=
  have ⟨_, hl, _⟩ := bind_eq_ok_iff.mp h
  ne_empty_of_locate hl

theorem eq_foldl_of_locate (h : d.locate path names = .ok p) :
    p = names.foldl Place.walk (.start path) := by
  unfold locate at h
  split_ifs at h
  exact foldl_eq_of_foldlM (fun p name q hq => (step_eq_ok_iff.mp hq).right.right.symm) h

-- A name for a file right in the folder.
structure IsName (name : String) : Prop where
  plain    : name.toList.any Text.isHalf = false
  short    : name.utf8ByteSize ≤ nameLimit
  relative : "/".isPrefixOf name = false
  slash    : '/' ∉ name.toList
  null     : '\x00' ∉ name.toList
  step     : name ∉ ["", ".", ".."]

theorem locate_of_isName (h : IsName name) :
    d.locate name (Folder.names name) = .ok { names := [name] } := by
  have hc : Text.toCharacters name = name := Text.toCharacters_of_any h.plain
  have hn : Folder.names name = [name] := by
    rw [Folder.names, Text.mended_of_any h.plain, List.splitOn_eq_singleton h.slash]
    simp
  have hs : name.utf8ByteSize ≤ pathLimit := Nat.le_trans h.short (by decide)
  have hne := h.step
  simp only [List.mem_cons, List.not_mem_nil, or_false, not_or] at hne
  have hstep : d.step name {} name = .ok { names := [name] } := by
    refine step_eq_ok_iff.mpr ⟨rfl, hc.symm ▸ h.short, ?_⟩
    simp [Place.walk, hne]
  rw [hn, locate]
  simp [hne, h.null, hc, Nat.not_lt.mpr hs, Place.start, h.relative, hstep]

theorem place_of_isName (h : IsName name) : place name = { names := [name] } :=
  (eq_foldl_of_locate (locate_of_isName (d := {}) h)).symm

theorem withoutSlashes_eq (h : path.toList.getLast? ≠ some '/') : withoutSlashes path = path := by
  have hd : path.toList.reverse.dropWhile (· == '/') = path.toList.reverse := by
    rw [List.getLast?_eq_head?_reverse] at h
    cases hr : path.toList.reverse with
    | nil       => rfl
    | cons c cs => exact List.dropWhile_cons_of_neg (by simpa [hr] using h)
  rw [withoutSlashes, hd, List.reverse_reverse, String.ofList_toList]

theorem write_eq_ok_iff : d.write path text = .ok d' ↔
    ∃ p, d.locate path (Folder.names path) = .ok p ∧ d.isFolder p = false ∧
      path.toList.getLast? ≠ some '/' ∧ d.put p text = d' := by
  unfold write
  rw [bind_eq_ok_iff]
  by_cases hs : path.toList.getLast? = some '/'
  case pos => simp [hs]
  case neg =>
    rw [withoutSlashes_eq hs]
    refine exists_congr fun p => and_congr_right fun _ => ?_
    cases d.isFolder p <;> simp [hs]

theorem read_of_isName (h : IsName name) (hf : d.isFolder { names := [name] } = false)
    (hc : d.content? { names := [name] } = some text) : d.read name = .ok text := by
  unfold read
  refine bind_eq_ok_iff.mpr ⟨_, locate_of_isName h, ?_⟩
  rw [hf, hc]
  rfl

theorem exists_write_of_isName (h : IsName name) (hf : d.isFolder { names := [name] } = false)
    (text : String) : ∃ d', d.write name text = .ok d' := by
  refine ⟨_, write_eq_ok_iff.mpr ⟨_, locate_of_isName h, hf, fun hl => h.slash ?_, rfl⟩⟩
  exact List.mem_of_getLast? hl

theorem ne_empty_of_write (h : d.write path text = .ok d') : path ≠ "" :=
  have ⟨_, hl, _⟩ := write_eq_ok_iff.mp h
  ne_empty_of_locate hl

theorem write_eq_put (h : d.write path text = .ok d') : d.put (place path) text = d' := by
  obtain ⟨p, hl, _, _, rfl⟩ := write_eq_ok_iff.mp h
  rw [eq_foldl_of_locate hl, place]

theorem write_mended (h : d.write path text = .ok d') :
    d.write path (Text.mended text) = .ok d' := by
  obtain ⟨p, hl, hf, he, rfl⟩ := write_eq_ok_iff.mp h
  refine write_eq_ok_iff.mpr ⟨p, hl, hf, he, ?_⟩
  rw [put, put, Text.mended_mended]

-- What has been written can be read where it was written, unless it went into the sink. Where a
-- path leads depends on the folders, and these stay as they are.
theorem read_of_write (h : d.write path text = .ok d') (hs : place path ≠ .sink) :
    d'.read path = .ok (Text.mended text) := by
  obtain ⟨p, hl, hf, _, rfl⟩ := write_eq_ok_iff.mp h
  have hp : p ≠ .sink := eq_foldl_of_locate hl ▸ hs
  unfold read
  refine bind_eq_ok_iff.mpr ⟨p, locate_put.mpr hl, ?_⟩
  rw [isFolder_put, hf, content?_put hp]
  rfl

end LayeredDiagram.CommandLine.Folder
