import PlotAdvisor.Advice.Random
import PlotAdvisor.Assistant.Service
import PlotAdvisor.Datum.Writer
import PlotAdvisor.Documentation.Exchange
import PlotAdvisor.Elements.Exchange
import PlotAdvisor.Elements.NamesCommand
import PlotAdvisor.Evaluation.Exchange
import PlotAdvisor.Forum.Exchange
import PlotAdvisor.Main
import PlotAdvisor.Markup.Command
import PlotAdvisor.Markup.Exchange
import PlotAdvisor.Messages.Exchange
import PlotAdvisor.Mining.TrainingPairs
import PlotAdvisor.Models.Elements.Command
import PlotAdvisor.Models.Elements.Session
import PlotAdvisor.Models.Productions.Command
import PlotAdvisor.Models.Vectors.Exchange
import PlotAdvisor.Program.PartExchange
import PlotAdvisor.Proofs.Acceptance
import PlotAdvisor.Proofs.AskedGoals
import PlotAdvisor.Proofs.Batches
import PlotAdvisor.Proofs.Borrowing
import PlotAdvisor.Proofs.CodeBlocks
import PlotAdvisor.Proofs.Consolidation
import PlotAdvisor.Proofs.DocumentedElements
import PlotAdvisor.Proofs.ElementScores
import PlotAdvisor.Proofs.Guesses
import PlotAdvisor.Proofs.Highlight
import PlotAdvisor.Proofs.InsertionLines
import PlotAdvisor.Proofs.Interactive
import PlotAdvisor.Proofs.KeywordNames
import PlotAdvisor.Proofs.LineGroups
import PlotAdvisor.Proofs.MatchWeights
import PlotAdvisor.Proofs.Memory
import PlotAdvisor.Proofs.NullWord
import PlotAdvisor.Proofs.Ranges
import PlotAdvisor.Proofs.Ranking
import PlotAdvisor.Proofs.Recovery
import PlotAdvisor.Proofs.Rejection
import PlotAdvisor.Proofs.Renaming
import PlotAdvisor.Proofs.Reranking
import PlotAdvisor.Proofs.Scoring
import PlotAdvisor.Proofs.Snippets
import PlotAdvisor.Proofs.StableTables
import PlotAdvisor.Proofs.UseCounts
import PlotAdvisor.Proofs.VectorFiles
import PlotAdvisor.Proofs.WholeValues
import PlotAdvisor.Running.Exchange
import PlotAdvisor.Shell.Words
import PlotAdvisor.Sketch.Exchange
import PlotAdvisor.Storage.Exchange
