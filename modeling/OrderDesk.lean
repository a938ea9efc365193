import OrderDesk.CommandLine.Program
import OrderDesk.Exercise
import OrderDesk.Http
import OrderDesk.Main
import OrderDesk.Proofs.Arrivals
import OrderDesk.Proofs.Bare
import OrderDesk.Proofs.Batches
import OrderDesk.Proofs.BusyTasks
import OrderDesk.Proofs.Calls
import OrderDesk.Proofs.Capacities
import OrderDesk.Proofs.Closures
import OrderDesk.Proofs.Comparisons
import OrderDesk.Proofs.ContextWaits
import OrderDesk.Proofs.Copies
import OrderDesk.Proofs.Counterparts
import OrderDesk.Proofs.CourierLine
import OrderDesk.Proofs.Cutoffs
import OrderDesk.Proofs.Deadlines
import OrderDesk.Proofs.Desks
import OrderDesk.Proofs.Enclosures
import OrderDesk.Proofs.Entrances
import OrderDesk.Proofs.Errors
import OrderDesk.Proofs.Fairness
import OrderDesk.Proofs.Forecasts
import OrderDesk.Proofs.Holdings
import OrderDesk.Proofs.IdleDesks
import OrderDesk.Proofs.Isolation
import OrderDesk.Proofs.Latencies
import OrderDesk.Proofs.Layers
import OrderDesk.Proofs.OrderBodies
import OrderDesk.Proofs.OrderTimes
import OrderDesk.Proofs.Pages
import OrderDesk.Proofs.Pieces
import OrderDesk.Proofs.Processors
import OrderDesk.Proofs.QuietCalls
import OrderDesk.Proofs.Rounds
import OrderDesk.Proofs.Rows
import OrderDesk.Proofs.Runs
import OrderDesk.Proofs.Seniority
import OrderDesk.Proofs.Sessions
import OrderDesk.Proofs.SimultaneousOrders
import OrderDesk.Proofs.Stages
import OrderDesk.Proofs.Tags
import OrderDesk.Proofs.TextPrefixes
import OrderDesk.Proofs.Ticks
import OrderDesk.Proofs.TornLines
import OrderDesk.Proofs.Transcripts
import OrderDesk.Proofs.Turns
import OrderDesk.Rehearsal
