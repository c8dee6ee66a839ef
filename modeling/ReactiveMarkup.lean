import ReactiveMarkup.Markup.Fragment
import ReactiveMarkup.Proofs.Binding.Alternatives
import ReactiveMarkup.Proofs.Component.Published
import ReactiveMarkup.Proofs.Expression.Printing
import ReactiveMarkup.Proofs.Expression.Spans
import ReactiveMarkup.Proofs.Face.Dependence
import ReactiveMarkup.Proofs.Face.Headers
import ReactiveMarkup.Proofs.Face.Layouts
import ReactiveMarkup.Proofs.Markup.Delimiters
import ReactiveMarkup.Proofs.Markup.Preparing
import ReactiveMarkup.Proofs.Markup.Traversals
import ReactiveMarkup.Proofs.Page.Aborts
import ReactiveMarkup.Proofs.Page.Barrier
import ReactiveMarkup.Proofs.Page.Captures
import ReactiveMarkup.Proofs.Page.Closing
import ReactiveMarkup.Proofs.Page.Dismissal
import ReactiveMarkup.Proofs.Page.Drainage
import ReactiveMarkup.Proofs.Page.Evaluation
import ReactiveMarkup.Proofs.Page.Protocol
import ReactiveMarkup.Proofs.Page.Refusals
import ReactiveMarkup.Proofs.Page.Requests
import ReactiveMarkup.Proofs.Page.Waiting
import ReactiveMarkup.Proofs.Page.Wrappers
import ReactiveMarkup.Proofs.Scope.Books
import ReactiveMarkup.Proofs.Scope.Latest
import ReactiveMarkup.Proofs.Scope.Reach
import ReactiveMarkup.Proofs.Source.KeyedAppend
import ReactiveMarkup.Proofs.Source.Travel
import ReactiveMarkup.Source.Wire
