import LayeredDiagram.CommandLine.Folder
import LayeredDiagram.Json.Finite
import LayeredDiagram.Json.Reader
import LayeredDiagram.Log.Session
import LayeredDiagram.Main
import LayeredDiagram.Proofs.CommandLine.Agreement
import LayeredDiagram.Proofs.CommandLine.Folder
import LayeredDiagram.Proofs.CommandLine.Options
import LayeredDiagram.Proofs.CommandLine.Run
import LayeredDiagram.Proofs.Drawing.Elements
import LayeredDiagram.Proofs.Drawing.Label
import LayeredDiagram.Proofs.Drawing.Outline
import LayeredDiagram.Proofs.Drawing.Texts
import LayeredDiagram.Proofs.Figure.Outcome
import LayeredDiagram.Proofs.Graph.Acyclic
import LayeredDiagram.Proofs.Graph.Forward
import LayeredDiagram.Proofs.Graph.Interleaving
import LayeredDiagram.Proofs.Graph.Layering
import LayeredDiagram.Proofs.Graph.Least
import LayeredDiagram.Proofs.Graph.Loops
import LayeredDiagram.Proofs.Graph.Recursion
import LayeredDiagram.Proofs.Graph.Refusal
import LayeredDiagram.Proofs.Graph.Relaxation
import LayeredDiagram.Proofs.Graph.Repeats
import LayeredDiagram.Proofs.Graph.Search
import LayeredDiagram.Proofs.Graph.Turns
import LayeredDiagram.Proofs.Layout.Arrangement
import LayeredDiagram.Proofs.Layout.Columns
import LayeredDiagram.Proofs.Layout.Engine
import LayeredDiagram.Proofs.Layout.Geometry
import LayeredDiagram.Proofs.Layout.Grid
import LayeredDiagram.Proofs.Layout.Indexed
import LayeredDiagram.Proofs.Layout.LayerColumns
import LayeredDiagram.Proofs.Layout.Outcome
import LayeredDiagram.Proofs.Layout.Placement
import LayeredDiagram.Proofs.Log.Child
import LayeredDiagram.Proofs.Log.Journal
import LayeredDiagram.Proofs.Log.Script
import LayeredDiagram.Proofs.Markup.Attribute
import LayeredDiagram.Proofs.Markup.Element
import LayeredDiagram.Proofs.Markup.Encoding
import LayeredDiagram.Proofs.Markup.Fragment
import LayeredDiagram.Proofs.Markup.Reader
import LayeredDiagram.Proofs.Markup.Strip
import LayeredDiagram.Proofs.Markup.TextTree
import LayeredDiagram.Proofs.Number.Digits
import LayeredDiagram.Proofs.Number.Order
import LayeredDiagram.Proofs.Record
import LayeredDiagram.Proofs.Schema.Acceptance
import LayeredDiagram.Proofs.Schema.Given
import LayeredDiagram.Proofs.Schema.Normal
import LayeredDiagram.Proofs.Schema.Place
import LayeredDiagram.Proofs.Schema.Plan
import LayeredDiagram.Proofs.Schema.Request
import LayeredDiagram.Proofs.Schema.Style
import LayeredDiagram.Proofs.Service.Agreement
import LayeredDiagram.Proofs.Service.Handling
import LayeredDiagram.Proofs.Service.Identity
import LayeredDiagram.Proofs.Service.Limits
import LayeredDiagram.Proofs.Service.Reply
import LayeredDiagram.Proofs.Settings
import LayeredDiagram.Proofs.Spec.Comment
import LayeredDiagram.Proofs.Spec.Contents
import LayeredDiagram.Proofs.Spec.Document
import LayeredDiagram.Proofs.Spec.EdgeGrammar
import LayeredDiagram.Proofs.Spec.Ending
import LayeredDiagram.Proofs.Spec.Entry
import LayeredDiagram.Proofs.Spec.Gathering
import LayeredDiagram.Proofs.Spec.Grammar
import LayeredDiagram.Proofs.Spec.Outcome
import LayeredDiagram.Proofs.Spec.RoundTrip
import LayeredDiagram.Proofs.Spec.Section
import LayeredDiagram.Proofs.Style.Color
import LayeredDiagram.Proofs.Style.Resolved
import LayeredDiagram.Proofs.Style.Table
import LayeredDiagram.Proofs.Text.Half
import LayeredDiagram.Proofs.Text.Letters
import LayeredDiagram.Proofs.Text.Trim
import LayeredDiagram.Service.Basic
