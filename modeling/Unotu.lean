import Unotu.Library.OrderedSet
import Unotu.Library.Runs
import Unotu.Library.Multigraph
import Unotu.Library.Words
import Unotu.Graph.Heap
import Unotu.Graph.Operations
import Unotu.Graph.Erasure
import Unotu.Graph.Representation
import Unotu.Graph.Membership
import Unotu.Graph.Soundness
import Unotu.Graph.Adjacency
import Unotu.Graph.Release
import Unotu.Graph.Crossing
import Unotu.Library.KeyedTable
import Unotu.Cards.Text
import Unotu.Cards.Database
import Unotu.Cards.Data
import Unotu.Cards.Search
import Unotu.Cards.Sessions
import Unotu.Cards.Saving
import Unotu.Filter.Evaluation
import Unotu.Filter.Building
import Unotu.Filter.Termination
import Unotu.Filter.Inputs
import Unotu.Filter.Drawing
import Unotu.Filter.Ownership
import Unotu.Widget.View
import Unotu.Widget.FilterGraph
import Unotu.Widget.Execution
import Unotu.Cards.RoundTrip
import Unotu.Cards.Identity
import Unotu.Cards.Displayed
import Unotu.Cards.Setup
import Unotu.Cards.Restart
import Unotu.Widget.Dragging
import Unotu.Widget.Keys
import Unotu.Graph.Effect
import Unotu.Graph.Destruction
import Unotu.Graph.Disconnect
import Unotu.Filter.Slicing
import Unotu.Filter.Chain
import Unotu.Filter.Collecting
import Unotu.Filter.Out
import Unotu.Graph.Roster
import Unotu.Graph.Connecting
import Unotu.Graph.Cutting
import Unotu.Graph.Dying
import Unotu.Graph.Emptying
import Unotu.Graph.GraphCut
import Unotu.Graph.Views
import Unotu.Graph.Parallel
import Unotu.Filter.Counting
import Unotu.Cards.Splitting
import Unotu.Widget.Coordinates
import Unotu.Filter.Lines
import Unotu.Graph.Store
import Unotu.Graph.Showing
import Unotu.Graph.Lifetimes
import Unotu.Filter.Effects
import Unotu.Filter.Parameters
import Unotu.Filter.Interleaving
import Unotu.Cards.Tracking
import Unotu.Cards.Queries
import Unotu.Cards.Starts
import Unotu.Filter.Answers
import Unotu.Library.Viewport
import Unotu.Widget.Holding
import Unotu.Cards.Deck
import Unotu.Cards.Populated
