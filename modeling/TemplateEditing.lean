import TemplateEditing.Main
import TemplateEditing.Proofs.Buffer.Undo
import TemplateEditing.Proofs.Change.Offsets
import TemplateEditing.Proofs.Markup.Locate
import TemplateEditing.Proofs.Markup.Partner
import TemplateEditing.Proofs.Buffer.Markers
import TemplateEditing.Proofs.Session.Ownership
import TemplateEditing.Proofs.Document.Sound
import TemplateEditing.Proofs.Grammar.Sites
import TemplateEditing.Proofs.Grammar.Trails
import TemplateEditing.Proofs.Tag.Located
import TemplateEditing.Proofs.Tag.Found
import TemplateEditing.Proofs.Tag.Paired
import TemplateEditing.Proofs.Tag.Layout
import TemplateEditing.Proofs.Tag.Shown
import TemplateEditing.Proofs.Tag.Names
import TemplateEditing.Proofs.Session.InStep
import TemplateEditing.Proofs.Session.Settling
import TemplateEditing.Proofs.Session.RenameTogether
import TemplateEditing.Proofs.Grammar.WellFormed
import TemplateEditing.Proofs.Grammar.Rows
import TemplateEditing.Proofs.Markup.Void
import TemplateEditing.Proofs.Session.Names
import TemplateEditing.Proofs.Session.Refusals
import TemplateEditing.Proofs.Tag.Scans
import TemplateEditing.Proofs.Tag.Balance
import TemplateEditing.Proofs.Tag.Agreement
import TemplateEditing.Proofs.Tag.Hidden
import TemplateEditing.Proofs.Tag.Faults
import TemplateEditing.Proofs.Tag.Reach
import TemplateEditing.Proofs.Tag.WholeNames
import TemplateEditing.Proofs.Document.Cursors
import TemplateEditing.Proofs.Document.Typing
import TemplateEditing.Proofs.Completion.Ranking
import TemplateEditing.Proofs.Completion.Skipping
import TemplateEditing.Proofs.Completion.Typed
import TemplateEditing.Proofs.Completion.Names
import TemplateEditing.Proofs.Markup.Cut
import TemplateEditing.Proofs.Completion.Closing
import TemplateEditing.Proofs.Completion.Similarity
import TemplateEditing.Proofs.Taglib.Layers
import TemplateEditing.Proofs.Grammar.Strings
import TemplateEditing.Proofs.Link.Literals
import TemplateEditing.Proofs.Taglib.Attributes
import TemplateEditing.Proofs.Text.Breaks
import TemplateEditing.Proofs.Buffer.Scans
import TemplateEditing.Proofs.Taglib.Coherence
import TemplateEditing.Proofs.Document.BackwardSearch
