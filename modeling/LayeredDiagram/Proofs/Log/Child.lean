import LayeredDiagram.Log.Logger
import LayeredDiagram.Proofs.Record.Listing

namespace LayeredDiagram

namespace Json

variable {r r' : Record Json}

theorem arrangedFields_eq (r : Record Json) :
    arrangedFields r = Record.collect (fun j => some j.arranged) r := by
  induction r with
  | nil          => rfl
  | cons e r hi => rw [arrangedFields, hi, Record.collect, Record.collect, List.filterMap_cons]; rfl

theorem arranged_obj_eq (h : Record.Alike r r') (hn : r.keys.Nodup) (hn' : r'.keys.Nodup) :
    (obj r).arranged = (obj r').arranged := by
  rw [arranged, arranged, arrangedFields_eq, arrangedFields_eq,
    h.collect.inOrder_eq (hn.sublist Record.keys_collect_sublist)
      (hn'.sublist Record.keys_collect_sublist)]

end Json

namespace Record

variable {α : Type}

-- Both in one: each field is set as it is listed, those of the second record last.
def spread (r s : Record α) : Record α :=
  ofPairs (r.inOrder ++ s.inOrder)

end Record

namespace Log

open Record (Alike)

variable {j : Journal} {ambient : Option String} {l l' : Logger} {c : Call}
  {metadata e e' : Record Value}

theorem keys_field_sublist (key : String) (v? : Option Value) :
    (field key v?).keys.Sublist [key] := by
  cases v? with
  | none   => exact List.nil_sublist _
  | some v => cases hv : v.isPresent <;> simp [field, hv, Record.keys]

namespace Journal

-- The fields in front of those of the context.
def head (j : Journal) (ambient : Option String) (l : Logger) (c : Call) : Record Value :=
  [("timestamp", .str j.timestamp), ("level", .str c.level.name), ("message", .str c.message),
    ("service", .str j.service)] ++
  field "module" (l.context.get? "module") ++ field "correlationId" (correlation l ambient)

theorem entry_eq : j.entry ambient l c metadata =
    ((j.head ambient l c).merge ((l.context.erase "module").erase "correlationId")).merge
      metadata :=
  rfl

theorem keys_head_sublist : (j.head ambient l c).keys.Sublist
    ["timestamp", "level", "message", "service", "module", "correlationId"] := by
  have hkeys : (j.head ambient l c).keys = ["timestamp", "level", "message", "service"] ++
      (field "module" (l.context.get? "module")).keys ++
      (field "correlationId" (correlation l ambient)).keys := by
    simp [head, Record.keys]
  rw [hkeys]
  exact ((List.Sublist.refl _).append (keys_field_sublist ..)).append (keys_field_sublist ..)

theorem nodup_keys_head : (j.head ambient l c).keys.Nodup :=
  List.Nodup.sublist keys_head_sublist (by decide)

theorem nodup_keys_entry : (j.entry ambient l c metadata).keys.Nodup :=
  Record.nodup_keys_merge (Record.nodup_keys_merge nodup_keys_head)

theorem fields_eq (e : Record Value) : j.fields e = Record.collect (·.toJson? j.elapsed) e :=
  rfl

-- A line shows no more of an entry than a listing does.
theorem write_eq (h : Alike e e') (hn : e.keys.Nodup) (hn' : e'.keys.Nodup) :
    j.write e = j.write e' := by
  have hfields : (Json.obj (j.fields e)).arranged = (Json.obj (j.fields e')).arranged :=
    Json.arranged_obj_eq h.collect (hn.sublist Record.keys_collect_sublist)
      (hn'.sublist Record.keys_collect_sublist)
  have hchannel : channelOf e = channelOf e' := by rw [channelOf, channelOf, h.get?_eq]
  simp only [write, Json.pretty, Json.compact, hfields, hchannel]

theorem alike_entry (h : Alike l.context l'.context) :
    Alike (j.entry ambient l c metadata) (j.entry ambient l' c metadata) := by
  have hhead : j.head ambient l c = j.head ambient l' c := by
    rw [head, head, correlation, correlation, h.get?_eq, h.get?_eq]
  rw [entry_eq, entry_eq, hhead]
  exact ((Alike.refl _).merge h.erase.erase).merge (.refl _)

theorem line?_eq (h : Alike l.context l'.context) :
    j.line? ambient l c = j.line? ambient l' c := by
  have hwrite (metadata : Record Value) :
      j.write (j.entry ambient l c metadata) = j.write (j.entry ambient l' c metadata) :=
    write_eq (alike_entry h) nodup_keys_entry nodup_keys_entry
  simp only [line?, hwrite]

end Journal

theorem Logger.alike_child_child (l : Logger) (a b : Record Value) :
    Alike ((l.child a).child b).context (l.child (a.spread b)).context := by
  have hchild : ((l.child a).child b).context = l.context.merge (a ++ b) :=
    Record.merge_append.symm
  have hspread : (l.child (a.spread b)).context = l.context.merge (a.inOrder ++ b.inOrder) :=
    Record.merge_ofPairs
  rw [hchild, hspread]
  exact (Alike.refl _).merge (Record.alike_inOrder.symm.append Record.alike_inOrder.symm)

-- Whatever is logged, and whichever keys both contexts and the line itself have in common.
theorem Logger.line?_child_child (j : Journal) (ambient : Option String) (l : Logger)
    (a b : Record Value) (c : Call) :
    j.line? ambient ((l.child a).child b) c = j.line? ambient (l.child (a.spread b)) c :=
  Journal.line?_eq (l.alike_child_child a b)

end Log

end LayeredDiagram
